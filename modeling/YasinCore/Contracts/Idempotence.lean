import YasinCore.Contracts.Redaction

namespace YasinCore.Contracts

open YasinCore.Library

-- Written over by stars up to the next blank.
def Covered (s : Str) : Prop := ∃ rest, s = stars ++ rest ∧ Ends rest

-- Whatever comes after a keyword and a separator is written over.
def Stable (s : Str) : Prop :=
  ∀ head c rest, head ++ c :: rest <:+ s → IsHead head → isSpace c = false → Covered (c :: rest)

def star : CodePoint := .ofChar '*'

theorem stars_eq : stars = [star, star, star] := rfl

theorem mem_stars {c : CodePoint} (h : c ∈ stars) : c = star := by
  rw [stars_eq] at h
  simpa using h

section Heads

-- After the separator there are only blanks.
theorem isSpace_of_separator {head front behind : Str} {c : CodePoint} (h : IsHead head)
    (hc : isSeparator c = true) (heq : head = front ++ c :: behind) :
    ∀ d ∈ behind, isSpace d = true := by
  obtain ⟨keyword, before, separator, rest, rfl, hk, hbefore, -, hrest⟩ := h
  have hspace := not_isSpace_of_isSeparator hc
  have hkeywords : ∀ keyword ∈ keywords,
      fold (.ofChar ':') ∉ keyword ∧ fold (.ofChar '=') ∉ keyword := by decide
  have hkeyword : c ∉ keyword := by
    intro hm
    have hletter := List.mem_map_of_mem (f := fold) hm
    rcases of_decide_eq_true hc with rfl | rfl
    · exact (hkeywords _ hk).1 hletter
    · exact (hkeywords _ hk).2 hletter
  rcases List.append_eq_append_iff.mp heq with ⟨beyond, -, hover⟩ | ⟨beyond, hover, hbehind⟩
  · rcases List.cons_eq_append_iff.mp hover with ⟨-, hover⟩ | ⟨beyond, -, hover⟩
    · rw [(List.cons.inj hover).2]
      exact hrest
    · have hm : c ∈ rest := hover ▸ List.mem_append_right _ List.mem_cons_self
      exact Bool.noConfusion ((hrest c hm).symm.trans hspace)
  · rcases List.cons_eq_append_iff.mp hbehind with ⟨-, hbehind⟩ | ⟨beyond, rfl, -⟩
    · rw [← (List.cons.inj hbehind).2]
      exact hrest
    · have hm : c ∈ keyword ++ before := hover ▸ List.mem_append_right _ List.mem_cons_self
      rcases List.mem_append.mp hm with hm | hm
      · exact (hkeyword hm).elim
      · exact Bool.noConfusion ((hbefore c hm).symm.trans hspace)

-- No keyword and separator end within others.
theorem no_head_inside {head inner rest : Str} {c : CodePoint} (h : IsHead head) (hi : IsHead inner)
    (hc : isSpace c = false) : ¬inner ++ c :: rest <:+ head := by
  rintro ⟨before, hbefore⟩
  obtain ⟨keyword, front, separator, behind, rfl, -, -, hs, -⟩ := hi
  have hhead : head = (before ++ (keyword ++ front)) ++ separator :: (behind ++ c :: rest) := by
    rw [← hbefore]
    simp
  have hspace := isSpace_of_separator h hs hhead c (List.mem_append_right _ List.mem_cons_self)
  exact Bool.noConfusion (hspace.symm.trans hc)

-- Case is not a matter of blanks.
theorem fold_of_isSpace {c : CodePoint} (h : isSpace c = true) : fold c = c := by
  have hspaces : ∀ n ∈ Text.spaces, ¬(0x41 ≤ n ∧ n ≤ 0x5a) ∧ ¬(n = 0x130 ∨ n = 0x131) ∧ n ≠ 0x17f ∧
      n ≠ 0x212a := by decide
  obtain ⟨hupper, hi, hs, hk⟩ := hspaces c.val (List.contains_iff_mem.mp h)
  unfold fold
  rw [if_neg hupper, if_neg hi, if_neg hs, if_neg hk]

theorem head_starts {head : Str} (h : IsHead head) :
    ∃ c rest, head = c :: rest ∧ isSpace c = false := by
  obtain ⟨keyword, before, separator, behind, rfl, hk, -⟩ := h
  have hkeywords : ∀ keyword ∈ keywords, keyword.head?.map isSpace = some false := by decide
  cases keyword with
  | nil => cases hkeywords _ hk
  | cons c keyword =>
      have hfold : isSpace (fold c) = false := Option.some.inj (hkeywords _ hk)
      refine ⟨c, _, rfl, Bool.eq_false_iff.mpr fun hspace => ?_⟩
      rw [fold_of_isSpace hspace, hspace] at hfold
      cases hfold

theorem stars_of_star {front rest tail : Str} {c : CodePoint} (hfront : star ∉ front)
    (h : stars ++ tail = front ++ c :: rest) : front = [] := by
  cases front with
  | nil => rfl
  | cons d front => exact (hfront ((List.cons.inj h).1 ▸ List.mem_cons_self)).elim

theorem ends_covers {s : Str} (h : Ends s) : (stars ++ s).dropWhile (fun c => !isSpace c) = s := by
  rw [List.dropWhile_append_of_pos fun c hc => by rw [mem_stars hc]; rfl]
  cases s with
  | nil => rfl
  | cons c s => rw [List.dropWhile_cons_of_neg (by simp [h c rfl])]

end Heads

section Secrets

variable {s : Str}

theorem Stable.suffix (h : Stable s) {rest : Str} (hr : rest <:+ s) : Stable rest :=
  fun head c tail hs => h head c tail (hs.trans hr)

-- In a stable text every match is written over with what is there.
theorem Stable.sub_eq (h : Stable s) : secretPattern.sub s = s := by
  induction s using secretPattern.induction with
  | nil => exact Pattern.sub_nil _
  | found s text rest ha ih =>
      obtain ⟨head, c, tail, his, hc, rfl, rfl, hrest⟩ := secretMatch_spec ha
      obtain ⟨after, hcovered, hends⟩ := h head c tail List.suffix_rfl his hc
      have hafter : rest = after := by rw [hrest, hcovered, ends_covers hends]
      have hstable : Stable after := by
        refine h.suffix ?_
        rw [hcovered, ← List.append_assoc]
        exact List.suffix_append _ _
      rw [Pattern.sub_match ha, ih (hafter ▸ hstable), hafter, hcovered, List.append_assoc]
  | skip c s ha ih => rw [Pattern.sub_skip ha, ih (h.suffix (List.suffix_cons c s))]

theorem Ends.secret_sub (h : Ends s) : Ends (secretPattern.sub s) := by
  cases s with
  | nil =>
      rw [Pattern.sub_nil]
      exact h
  | cons c s =>
      have hspace := h c rfl
      cases ha : secretPattern.apply (c :: s) with
      | none =>
          rw [Pattern.sub_skip ha]
          exact h
      | some result =>
          obtain ⟨head, d, tail, his, -, hs, -⟩ := secretMatch_spec ha
          obtain ⟨first, rest, rfl, hfirst⟩ := head_starts his
          rw [← (List.cons.inj hs).1, hspace] at hfirst
          cases hfirst

-- A place for a match in what comes out was one in what went in.
theorem secret_sub_place {front rest : Str} {c : CodePoint} (hfront : star ∉ front)
    (hc : isSpace c = false) (h : secretPattern.sub s = front ++ c :: rest) :
    ∃ d tail, s = front ++ d :: tail ∧ isSpace d = false := by
  induction s using secretPattern.induction generalizing front with
  | nil =>
      rw [Pattern.sub_nil] at h
      cases front with
      | nil => cases h
      | cons _ _ => cases h
  | found s text after ha ih =>
      obtain ⟨head, d, tail, -, hd, rfl, rfl, -⟩ := secretMatch_spec ha
      rw [Pattern.sub_match ha, List.append_assoc] at h
      rcases List.append_eq_append_iff.mp h with ⟨beyond, rfl, hover⟩ | ⟨beyond, rfl, hover⟩
      · have hnil := stars_of_star (fun hm => hfront (List.mem_append_right _ hm)) hover
        exact ⟨d, tail, by rw [hnil, List.append_nil], hd⟩
      · cases beyond with
        | nil => exact ⟨d, tail, by rw [List.append_nil], hd⟩
        | cons e beyond =>
            have he : c = e := (List.cons.inj hover).1
            exact ⟨e, beyond ++ d :: tail, by simp, he ▸ hc⟩
  | skip e s ha ih =>
      rw [Pattern.sub_skip ha] at h
      cases front with
      | nil => exact ⟨e, s, rfl, (List.cons.inj h).1 ▸ hc⟩
      | cons f front =>
          rw [List.cons_append, List.cons.injEq] at h
          obtain ⟨d, tail, rfl, hd⟩ := ih (fun hm => hfront (.tail _ hm)) h.2
          exact ⟨d, tail, by rw [h.1, List.cons_append], hd⟩

theorem star_ne_head {head rest tail : Str} (h : IsHead head) : head ++ rest ≠ star :: tail := by
  obtain ⟨c, front, rfl, -⟩ := head_starts h
  intro heq
  exact star_notMem_head h ((List.cons.inj heq).1 ▸ List.mem_cons_self)

-- A keyword and a separator that are written over, before a stable text.
theorem stable_masked {head : Str} (h : IsHead head) (hs : Stable s) (hends : Ends s) :
    Stable (head ++ (stars ++ s)) := by
  intro inner c rest hsuffix hi hc
  have hinner := star_notMem_head hi
  rcases Pattern.suffix_append_cases hsuffix with hsuffix | ⟨front, hf, heq⟩
  · rcases Pattern.suffix_append_cases hsuffix with hsuffix | ⟨marks, hmarks, heq⟩
    · exact hs inner c rest hsuffix hi hc
    · cases marks with
      | nil => exact hs inner c rest (heq ▸ List.suffix_rfl) hi hc
      | cons d marks =>
          rw [mem_stars (hmarks.subset List.mem_cons_self)] at heq
          exact (star_ne_head hi heq).elim
  · rcases List.append_eq_append_iff.mp heq with ⟨beyond, rfl, hover⟩ | ⟨beyond, rfl, hover⟩
    · cases beyond with
      | nil => exact ⟨s, hover, hends⟩
      | cons d beyond =>
          obtain ⟨rfl, -⟩ := List.cons.inj hover
          exact (no_head_inside h hi hc hf).elim
    · have hnil := stars_of_star (fun hm => hinner (List.mem_append_right _ hm)) hover
      rw [hnil] at hover
      exact ⟨s, hover.symm, hends⟩

theorem stable_secret_sub (s : Str) : Stable (secretPattern.sub s) := by
  induction s using secretPattern.induction with
  | nil =>
      rw [Pattern.sub_nil]
      intro head c rest hs
      have hnil := List.suffix_nil.mp hs
      exact (List.append_ne_nil_of_right_ne_nil head (List.cons_ne_nil c rest) hnil).elim
  | found s text rest ha ih =>
      obtain ⟨head, c, tail, his, -, -, rfl, hrest⟩ := secretMatch_spec ha
      have hends : Ends rest := hrest ▸ ends_dropWhile _
      rw [Pattern.sub_match ha, List.append_assoc]
      exact stable_masked his ih hends.secret_sub
  | skip c s ha ih =>
      intro head d rest hs his hd
      rw [Pattern.sub_skip ha] at hs
      rcases List.suffix_cons_iff.mp hs with heq | hs
      · obtain ⟨e, tail, hplace, he⟩ := secret_sub_place (star_notMem_head his) hd
          ((Pattern.sub_skip ha).trans heq.symm)
        have hmatch : secretMatch (c :: s) = none := ha
        rw [hplace, secretMatch_append his he] at hmatch
        cases hmatch
      · exact ih head d rest hs his hd

-- When a stable text is cut off, stars may be added to those at its end.
theorem Stable.prefix_sub (hs : Stable s) {t : Str} (ht : t <+: s) :
    ∃ marks, (∀ c ∈ marks, c = star) ∧ secretPattern.sub t = t ++ marks := by
  induction t using secretPattern.induction generalizing s with
  | nil => exact ⟨[], nofun, Pattern.sub_nil _⟩
  | found t text rest ha ih =>
      obtain ⟨head, c, tail, his, hc, rfl, rfl, hrest⟩ := secretMatch_spec ha
      obtain ⟨cut, rfl⟩ := ht
      obtain ⟨after, hcovered, hends⟩ := hs head c (tail ++ cut) (by simp) his hc
      rw [Pattern.sub_match ha]
      have hsplit : (c :: tail) ++ cut = stars ++ after := hcovered
      rcases List.append_eq_append_iff.mp hsplit with ⟨beyond, hover, -⟩ | ⟨left, hleft, rfl⟩
      · -- nothing but stars is left of the match
        have hnil : rest = [] := by
          rw [hrest, List.dropWhile_eq_nil_iff]
          intro d hd
          have hstar : d = star := mem_stars (hover ▸ List.mem_append_left beyond hd)
          rw [hstar]
          rfl
        refine ⟨beyond, fun d hd => mem_stars (hover ▸ List.mem_append_right _ hd), ?_⟩
        rw [hnil, Pattern.sub_nil, List.append_nil, List.append_assoc, hover]
      · have hends' : Ends left := fun d hd => hends d (by
          rw [List.head?_append, Option.mem_def.mp hd]
          rfl)
        have hleft' : rest = left := by rw [hrest, hleft, ends_covers hends']
        have hstable : Stable (left ++ cut) := by
          refine hs.suffix ?_
          rw [hleft, ← List.append_assoc, List.append_assoc]
          exact List.suffix_append _ _
        obtain ⟨marks, hmarks, hsub⟩ := ih hstable (hleft' ▸ List.prefix_append left cut)
        refine ⟨marks, hmarks, ?_⟩
        rw [hsub, hleft', hleft, List.append_assoc, List.append_assoc, List.append_assoc]
  | skip c t ha ih =>
      obtain ⟨cut, rfl⟩ := ht
      obtain ⟨marks, hmarks, hsub⟩ := ih (hs.suffix (List.suffix_cons c (t ++ cut)))
        (List.prefix_append t cut)
      exact ⟨marks, hmarks, by rw [Pattern.sub_skip ha, hsub, List.cons_append]⟩

end Secrets

section Tokens

variable {s : Str}

theorem jwt_erases : jwtPattern.Erases star where
  marks h := by
    rw [(jwtMatch_spec h).1]
    exact ⟨by decide, fun c hc => mem_stars hc⟩
  inside h := by
    obtain ⟨-, token, htoken, hs⟩ := jwtMatch_spec h
    exact ⟨token, star_notMem_jwt htoken, hs, jwtMatch_append htoken⟩

theorem jwt_starts {text rest tail : Str} {c : CodePoint}
    (h : jwtPattern.apply (c :: tail) = some (text, rest)) : isSpace c = false := by
  obtain ⟨-, token, ⟨first, second, third, rfl, -⟩, hs⟩ := jwtMatch_spec h
  have hstart : Str.ofString "eyJ" = .ofChar 'e' :: Str.ofString "yJ" := rfl
  rw [hstart, List.cons_append, List.cons_append, List.cons.injEq] at hs
  rw [hs.1]
  decide

theorem Ends.jwt_sub (h : Ends s) : Ends (jwtPattern.sub s) := by
  cases s with
  | nil =>
      rw [Pattern.sub_nil]
      exact h
  | cons c s =>
      cases ha : jwtPattern.apply (c :: s) with
      | none =>
          rw [Pattern.sub_skip ha]
          exact h
      | some result => exact Bool.noConfusion ((h c rfl).symm.trans (jwt_starts ha))

theorem Covered.jwt_sub (h : Covered s) : Covered (jwtPattern.sub s) := by
  obtain ⟨rest, rfl, hends⟩ := h
  rw [jwt_erases.sub_marks fun c hc => mem_stars hc]
  exact ⟨_, rfl, hends.jwt_sub⟩

-- Taking out tokens uncovers nothing.
theorem Stable.jwt_sub (hs : Stable s) : Stable (jwtPattern.sub s) := by
  induction s using jwtPattern.induction with
  | nil =>
      rw [Pattern.sub_nil]
      exact hs
  | found s text rest ha ih =>
      obtain ⟨rfl, token, -, rfl⟩ := jwtMatch_spec ha
      have hrest := ih (hs.suffix (List.suffix_append token rest))
      rw [Pattern.sub_match ha]
      intro head c tail hsuffix his hc
      rcases Pattern.suffix_append_cases hsuffix with hsuffix | ⟨marks, hmarks, heq⟩
      · exact hrest head c tail hsuffix his hc
      · cases marks with
        | nil => exact hrest head c tail (heq ▸ List.suffix_rfl) his hc
        | cons d marks =>
            rw [mem_stars (hmarks.subset List.mem_cons_self)] at heq
            exact (star_ne_head his heq).elim
  | skip c s ha ih =>
      intro head d tail hsuffix his hd
      rw [Pattern.sub_skip ha] at hsuffix
      rcases List.suffix_cons_iff.mp hsuffix with heq | hsuffix
      · obtain ⟨source, hsource, hsub⟩ := jwt_erases.copied (star_notMem_head his)
          ((Pattern.sub_skip ha).trans heq.symm)
        rw [← hsub]
        refine Covered.jwt_sub ?_
        cases source with
        | nil =>
            rw [Pattern.sub_nil] at hsub
            cases hsub
        | cons e source =>
            have he : isSpace e = false := by
              cases hf : jwtPattern.apply (e :: source) with
              | none =>
                  rw [Pattern.sub_skip hf] at hsub
                  rw [(List.cons.inj hsub).1, hd]
              | some result => exact jwt_starts hf
            exact hs head e source (hsource ▸ List.suffix_rfl) his he
      · exact ih (hs.suffix (List.suffix_cons c s)) head d tail hsuffix his hd

end Tokens

-- The patterns are replaced one after the other, and the text is cut off.
def redactText (limit : Int) (s : Str) : Str :=
  (jwtPattern.sub (secretPattern.sub s)).take (max 1 limit).toNat

theorem redactText_redactText (limit : Int) (s : Str) :
    redactText limit (redactText limit s) = redactText limit s := by
  have hstable : Stable (jwtPattern.sub (secretPattern.sub s)) := (stable_secret_sub s).jwt_sub
  have habsent := jwt_erases.absent_sub (secretPattern.sub s)
  unfold redactText
  generalize jwtPattern.sub (secretPattern.sub s) = cleaned at hstable habsent
  generalize (max 1 limit).toNat = n
  by_cases hn : cleaned.length ≤ n
  · rw [List.take_of_length_le hn, hstable.sub_eq, habsent.sub_eq, List.take_of_length_le hn]
  · obtain ⟨marks, hmarks, hsub⟩ := hstable.prefix_sub (List.take_prefix n cleaned)
    have hcut := jwt_erases.absent_prefix habsent (List.take_prefix n cleaned)
    have hlength : (cleaned.take n).length = n := by
      rw [List.length_take]
      omega
    rw [hsub, (jwt_erases.absent_append_marks hcut hmarks).sub_eq, List.take_append_of_le_length hlength.ge,
      List.take_take, Nat.min_self]

end YasinCore.Contracts
