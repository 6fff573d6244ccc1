import YasinCore.Contracts.Parsing
import Mathlib.Data.List.Chain

namespace YasinCore.Contracts

open YasinCore.Library

section Cuts

variable {front first second : Str} {b c d : CodePoint}

-- In a keyword and a separator, a blank comes before another one or before the separator.
theorem after_blank {head behind : Str} (h : IsHead head) (hb : isSpace b = true)
    (heq : head = front ++ b :: c :: behind) : isSpace c = true ∨ isSeparator c = true := by
  obtain ⟨keyword, before, separator, rest, rfl, hk, hbefore, hs, hrest⟩ := h
  have hletters : (keywords.all fun keyword => keyword.all fun letter => !isSpace letter) = true := by
    decide +kernel
  have hkeyword : ∀ letter ∈ keyword, isSpace letter = false := by
    intro letter hl
    refine Bool.eq_false_iff.mpr fun hspace => ?_
    have hfold := List.all_eq_true.mp (List.all_eq_true.mp hletters _ hk) _
      (List.mem_map_of_mem (f := fold) hl)
    rw [fold_of_isSpace hspace, hspace] at hfold
    cases hfold
  have hchain : List.IsChain (fun x y => isSpace x = true → isSpace y = true ∨ isSeparator y = true)
      (keyword ++ (before ++ separator :: rest)) := by
    refine List.isChain_append.mpr ⟨?_, List.isChain_append.mpr ⟨?_, ?_, ?_⟩, ?_⟩
    · exact List.Pairwise.isChain (List.pairwise_of_forall_mem_list fun x hx _ _ hspace =>
        Bool.noConfusion ((hkeyword x hx).symm.trans hspace))
    · exact List.Pairwise.isChain (List.pairwise_of_forall_mem_list fun _ _ y hy _ =>
        .inl (hbefore y hy))
    · refine List.Pairwise.isChain (List.pairwise_cons.mpr ⟨fun y hy _ => .inl (hrest y hy), ?_⟩)
      exact List.pairwise_of_forall_mem_list fun _ _ y hy _ => .inl (hrest y hy)
    · intro x _ y hy _
      obtain rfl := Option.some.inj hy
      exact .inr hs
    · intro x hx y _ hspace
      have hm := List.mem_of_getLast? hx
      exact Bool.noConfusion ((hkeyword x hm).symm.trans hspace)
  rw [← List.append_assoc, heq] at hchain
  exact (List.isChain_append_cons_cons.mp hchain).2.1 hb

-- At its end, a blank comes after another one or after the separator.
theorem before_last_blank {head : Str} (h : IsHead head) (hb : isSpace b = true)
    (heq : head = front ++ [d, b]) : isSpace d = true ∨ isSeparator d = true := by
  obtain ⟨keyword, before, separator, behind, rfl, -, -, hs, hbehind⟩ := h
  have hends : keyword ++ before ++ separator :: behind = front ++ [d] ++ [b] := by
    rw [heq, List.append_assoc]
    rfl
  rcases List.eq_nil_or_concat behind with rfl | ⟨behind, last, rfl⟩
  · have hlast := List.singleton_inj.mp (List.append_inj' hends rfl).2
    have hspace := not_isSpace_of_isSeparator hs
    rw [hlast, hb] at hspace
    cases hspace
  · have hinit : (keyword ++ before ++ separator :: behind) ++ [last] = front ++ [d] ++ [b] := by
      rw [← hends]
      simp
    have hfront := (List.append_inj' hinit rfl).1
    rcases List.eq_nil_or_concat behind with rfl | ⟨behind, last, rfl⟩
    · have hlast := List.singleton_inj.mp (List.append_inj' hfront rfl).2
      exact .inr (hlast ▸ hs)
    · have hinit : (keyword ++ before ++ separator :: behind) ++ [last] = front ++ [d] := by
        rw [← hfront]
        simp
      have hlast := List.singleton_inj.mp (List.append_inj' hinit rfl).2
      exact .inl (hlast ▸ hbehind last (by simp))

theorem dropWhile_append_of_mem {p : CodePoint → Bool} (hm : b ∈ first) (hb : p b = false) :
    (first ++ second).dropWhile p = first.dropWhile p ++ second := by
  have hne : first.dropWhile p ≠ [] := fun h => by
    rw [List.dropWhile_eq_nil_iff.mp h b hm] at hb
    cases hb
  rw [List.dropWhile_append, if_neg (by simpa using hne)]

theorem takeWhile_append_of_mem {p : CodePoint → Bool} (hm : b ∈ first) (hb : p b = false) :
    (first ++ second).takeWhile p = first.takeWhile p := by
  have hwhole : (first ++ second).takeWhile p ++ (first ++ second).dropWhile p =
      first.takeWhile p ++ (first ++ second).dropWhile p := by
    rw [List.takeWhile_append_dropWhile, dropWhile_append_of_mem hm hb, ← List.append_assoc,
      List.takeWhile_append_dropWhile]
  exact List.append_cancel_right hwhole

theorem mem_dropWhile {p : CodePoint → Bool} (hm : b ∈ first) (hb : p b = false) :
    b ∈ first.dropWhile p := by
  rw [← List.takeWhile_append_dropWhile (p := p) (l := first), List.mem_append] at hm
  refine hm.resolve_left fun h => ?_
  rw [List.mem_takeWhile_imp h] at hb
  cases hb

-- After a blank that does not belong to a separator, what comes is not part of an earlier match.
theorem secretMatch_cut (hd : isSpace d = false) (hds : isSeparator d = false)
    (hb : isSpace b = true) (hc : isSpace c = false) (hcs : isSeparator c = false)
    (hf : front <:+ first ++ [d, b]) (hne : front ≠ []) :
    secretMatch (front ++ c :: second) =
      (secretMatch front).map (Prod.map id (· ++ c :: second)) := by
  have hfront : front = [b] ∨ ∃ init, front = init ++ [d, b] := by
    rcases Pattern.suffix_append_cases hf with hf | ⟨init, -, hf⟩
    · rcases List.suffix_cons_iff.mp hf with rfl | hf
      · exact .inr ⟨[], rfl⟩
      · rcases List.suffix_cons_iff.mp hf with rfl | hf
        · exact .inl rfl
        · exact (hne (List.suffix_nil.mp hf)).elim
    · exact .inr ⟨init, hf⟩
  have hhead : ¬IsHead front := by
    intro his
    rcases hfront with rfl | ⟨init, rfl⟩
    · obtain ⟨x, rest, heq, hx⟩ := head_starts his
      rw [← (List.cons.inj heq).1, hb] at hx
      cases hx
    · rcases before_last_blank his hb rfl with h | h
      · exact Bool.noConfusion (hd.symm.trans h)
      · exact Bool.noConfusion (hds.symm.trans h)
  obtain ⟨init, hlast⟩ : ∃ init, front = init ++ [b] := by
    rcases hfront with rfl | ⟨init, rfl⟩
    · exact ⟨[], rfl⟩
    · exact ⟨init ++ [d], by simp⟩
  cases hm : secretMatch front with
  | some result =>
      obtain ⟨head, x, tail, his, hx, rfl, htext, hrest⟩ := secretMatch_spec hm
      have hmem : b ∈ x :: tail := by
        have hends := congrArg List.getLast? hlast
        rw [List.getLast?_append_of_ne_nil _ (List.cons_ne_nil x tail), List.getLast?_concat] at hends
        exact List.mem_of_getLast? hends
      rw [List.append_assoc, List.cons_append, secretMatch_append his hx, ← List.cons_append,
        dropWhile_append_of_mem hmem (by simp [hb]), ← hrest, ← htext]
      rfl
  | none =>
      cases hboth : secretMatch (front ++ c :: second) with
      | none => rfl
      | some result =>
          obtain ⟨head, x, tail, his, hx, heq, -⟩ := secretMatch_spec hboth
          exfalso
          rcases List.append_eq_append_iff.mp heq with ⟨beyond, rfl, hword⟩ | ⟨word, rfl, hword⟩
          · cases beyond with
            | nil =>
                rw [List.append_nil] at his
                exact hhead his
            | cons y beyond =>
                obtain rfl := (List.cons.inj hword).1
                rw [hlast, List.append_assoc] at his
                rcases after_blank his hb rfl with h | h
                · exact Bool.noConfusion (hc.symm.trans h)
                · exact Bool.noConfusion (hcs.symm.trans h)
          · cases word with
            | nil =>
                rw [List.append_nil] at hhead
                exact hhead his
            | cons y word =>
                obtain rfl := (List.cons.inj hword).1
                rw [secretMatch_append his hx] at hm
                cases hm

-- A text that ends in a blank is replaced up to there.
theorem secretMatch_blank (hb : isSpace b = true) :
    secretMatch (front ++ [b]) = (secretMatch front).map (Prod.map id (· ++ [b])) := by
  cases hm : secretMatch front with
  | some result =>
      obtain ⟨head, x, tail, his, hx, rfl, htext, hrest⟩ := secretMatch_spec hm
      have hdrop : (x :: tail ++ [b]).dropWhile (fun c => !isSpace c) =
          (x :: tail).dropWhile (fun c => !isSpace c) ++ [b] := by
        rw [List.dropWhile_append]
        split
        · rename_i hnil
          rw [List.isEmpty_iff.mp hnil, List.dropWhile_cons_of_neg (by simp [hb])]
          rfl
        · rfl
      rw [List.append_assoc, List.cons_append, secretMatch_append his hx, ← List.cons_append, hdrop,
        ← hrest, ← htext]
      rfl
  | none =>
      cases hboth : secretMatch (front ++ [b]) with
      | none => rfl
      | some result =>
          obtain ⟨head, x, tail, his, hx, heq, -⟩ := secretMatch_spec hboth
          exfalso
          rcases List.eq_nil_or_concat tail with rfl | ⟨tail, last, rfl⟩
          · have hlast := List.singleton_inj.mp (List.append_inj' heq rfl).2
            rw [← hlast, hb] at hx
            cases hx
          · have hinit : front ++ [b] = (head ++ x :: tail) ++ [last] := by
              rw [heq]
              simp
            rw [(List.append_inj' hinit rfl).1, secretMatch_append his hx] at hm
            cases hm

theorem secretMatch_suffix {s text rest : Str} (h : secretMatch s = some (text, rest)) : rest <:+ s := by
  obtain ⟨head, c, tail, -, -, rfl, -, rfl⟩ := secretMatch_spec h
  exact (List.dropWhile_suffix _).trans (List.suffix_append _ _)

theorem secret_sub_blank (hb : isSpace b = true) :
    secretPattern.sub (first ++ [b]) = secretPattern.sub first ++ [b] := by
  have hsub : secretPattern.sub [b] = [b] := by
    rw [Pattern.sub_skip, Pattern.sub_nil]
    cases hm : secretPattern.apply [b] with
    | none => rfl
    | some result =>
        obtain ⟨head, x, tail, his, hx, heq, -⟩ := secretMatch_spec hm
        obtain ⟨y, rest, rfl, hy⟩ := head_starts his
        rw [← (List.cons.inj heq).1, hb] at hy
        cases hy
  rw [Pattern.sub_append secretMatch_suffix fun front _ _ => secretMatch_blank hb, hsub]

theorem secret_sub_cut (hd : isSpace d = false) (hds : isSeparator d = false)
    (hb : isSpace b = true) (hc : isSpace c = false) (hcs : isSeparator c = false) :
    secretPattern.sub (first ++ [d, b] ++ c :: second) =
      secretPattern.sub (first ++ [d, b]) ++ secretPattern.sub (c :: second) :=
  Pattern.sub_append secretMatch_suffix fun _ hf hne => secretMatch_cut hd hds hb hc hcs hf hne

theorem tokenPart?_cut (second : Str) (hm : b ∈ first) (hb : isTokenChar b = false)
    (hdot : b ≠ .ofChar '.') :
    tokenPart? (first ++ second) = (tokenPart? first).map (· ++ second) ∧
      ∀ rest, tokenPart? first = some rest → b ∈ rest := by
  obtain ⟨x, rest, hdrop⟩ := List.exists_cons_of_ne_nil (List.ne_nil_of_mem (mem_dropWhile hm hb))
  have hmem := mem_dropWhile hm hb
  unfold tokenPart?
  rw [dropWhile_append_of_mem hm hb, takeWhile_append_of_mem hm hb]
  rw [hdrop] at hmem ⊢
  dsimp only [List.cons_append]
  split
  · rename_i hx
    refine ⟨rfl, fun after h => ?_⟩
    obtain rfl := Option.some.inj h
    exact (List.mem_cons.mp hmem).resolve_left fun h => hdot (h.trans hx.1)
  · exact ⟨rfl, nofun⟩

-- No token reaches over a character that cannot be in one.
theorem jwtMatch_cut (hm : b ∈ front) (hb : isTokenChar b = false) (hdot : b ≠ .ofChar '.') :
    jwtMatch (front ++ second) = (jwtMatch front).map (Prod.map id (· ++ second)) := by
  have hstart : b ∉ Str.ofString "eyJ" := by
    have hletters : ((Str.ofString "eyJ").all isTokenChar) = true := by decide +kernel
    intro h
    rw [List.all_eq_true.mp hletters b h] at hb
    cases hb
  unfold jwtMatch
  by_cases hearly : b ∈ front.take 3
  · have hfirst : front.take 3 ≠ Str.ofString "eyJ" := fun h => hstart (h ▸ hearly)
    have hboth : (front ++ second).take 3 ≠ Str.ofString "eyJ" := by
      intro h
      rw [List.take_append] at h
      exact hstart (h ▸ List.mem_append_left _ hearly)
    rw [if_pos hfirst, if_pos hboth]
    rfl
  · have hlate : b ∈ front.drop 3 := by
      rw [← List.take_append_drop 3 front, List.mem_append] at hm
      exact hm.resolve_left hearly
    have hlength : 3 ≤ front.length := by
      have hpos := List.length_pos_of_mem hlate
      rw [List.length_drop] at hpos
      omega
    rw [List.take_append_of_le_length hlength, List.drop_append_of_le_length hlength]
    obtain ⟨hsecond, hkeep⟩ := tokenPart?_cut second hlate hb hdot
    rw [hsecond]
    split
    · rfl
    · cases hpart : tokenPart? (front.drop 3) with
      | none => rfl
      | some after =>
          have hafter := hkeep after hpart
          obtain ⟨hthird, hkeep⟩ := tokenPart?_cut second hafter hb hdot
          simp only [Option.map_some, Option.bind_eq_bind, Option.bind_some, hthird]
          cases hpart : tokenPart? after with
          | none => rfl
          | some last =>
              have hlast := hkeep last hpart
              simp only [Option.map_some, Option.bind_some, takeWhile_append_of_mem hlast hb,
                dropWhile_append_of_mem hlast hb]
              split
              · rfl
              · rfl

theorem jwtMatch_suffix {s text rest : Str} (h : jwtMatch s = some (text, rest)) : rest <:+ s := by
  obtain ⟨-, token, -, rfl⟩ := jwtMatch_spec h
  exact List.suffix_append _ _

theorem jwt_sub_cut (hb : isTokenChar b = false) (hdot : b ≠ .ofChar '.') :
    jwtPattern.sub (first ++ [b] ++ second) = jwtPattern.sub (first ++ [b]) ++ jwtPattern.sub second := by
  refine Pattern.sub_append jwtMatch_suffix fun front hf hne => jwtMatch_cut ?_ hb hdot
  rcases Pattern.suffix_append_cases hf with hf | ⟨init, -, rfl⟩
  · rcases List.suffix_cons_iff.mp hf with rfl | hf
    · exact List.mem_cons_self
    · exact (hne (List.suffix_nil.mp hf)).elim
  · exact List.mem_append_right _ List.mem_cons_self

end Cuts

section Header

variable {φ : Type}

def header : Str := .ofString "Authorization: Bearer "

-- Letters, digits and some signs, and no keyword among them.
structure Bearer (token : Str) : Prop where
  nonempty : token ≠ []
  plain : ∀ c ∈ token, isTokenChar c = true ∨ c = .ofChar '.'
  free : ∀ keyword ∈ keywords, ¬keyword <:+: token.map fold

def message (before after token : Str) : Str := before ++ header ++ (token ++ after)

def masked (s : Str) : Str := jwtPattern.sub (secretPattern.sub s)

-- What is reported of a message does not depend on the token in its header.
def HidesToken (host : Host φ) (limit : Int) (before after : Str) : Prop :=
  ∀ t u, Bearer t → Bearer u → t.length = u.length →
    redactSecrets host (.scalar (.str (message before after t))) limit =
      redactSecrets host (.scalar (.str (message before after u))) limit

theorem not_isSpace_of_isTokenChar {c : CodePoint} (h : isTokenChar c = true) : isSpace c = false := by
  have hspaces : (Text.spaces.all fun n => !isTokenChar (Fin.ofNat _ n)) = true := by decide +kernel
  refine Bool.eq_false_iff.mpr fun hspace => ?_
  have hnot := List.all_eq_true.mp hspaces c.val (List.contains_iff_mem.mp hspace)
  rw [Fin.ofNat_val_eq_self, h] at hnot
  cases hnot

theorem Bearer.first {token : Str} (h : Bearer token) : ∃ c rest, token = c :: rest ∧
    isSpace c = false ∧ isSeparator c = false := by
  obtain ⟨c, rest, rfl⟩ := List.exists_cons_of_ne_nil h.nonempty
  refine ⟨c, rest, rfl, ?_⟩
  rcases h.plain c List.mem_cons_self with hc | rfl
  · refine ⟨not_isSpace_of_isTokenChar hc, decide_eq_false fun hs => ?_⟩
    rcases hs with rfl | rfl
    · revert hc
      decide
    · revert hc
      decide
  · exact ⟨by decide, by decide⟩

-- The header matches up to its blank only: the first keyword covers the second one, and the token
-- after it is looked at on its own.
theorem masked_message {before after token : Str} (h : Bearer token) :
    masked (message before after token) = masked (before ++ header) ++ masked (token ++ after) := by
  obtain ⟨c, rest, rfl, hc, hcs⟩ := h.first
  have hheader : before ++ header =
      before ++ Str.ofString "Authorization: Beare" ++ [.ofChar 'r', .ofChar ' '] := by
    rw [List.append_assoc]
    exact congrArg (before ++ ·) (by decide +kernel)
  have hblank : isSpace (.ofChar ' ') = true := by decide
  have hends : secretPattern.sub (before ++ header) =
      secretPattern.sub (before ++ Str.ofString "Authorization: Bearer") ++ [.ofChar ' '] := by
    rw [← secret_sub_blank hblank, List.append_assoc]
    exact congrArg (fun s => secretPattern.sub (before ++ s)) (by decide +kernel)
  have hcut : secretPattern.sub (message before after (c :: rest)) =
      secretPattern.sub (before ++ header) ++ secretPattern.sub (c :: rest ++ after) := by
    unfold message
    rw [hheader]
    exact secret_sub_cut (by decide) (by decide) hblank hc hcs
  unfold masked
  rw [hcut, hends]
  exact jwt_sub_cut (by decide) (by decide)

theorem head_secret_sub (c : CodePoint) (s : Str) : (secretPattern.sub (c :: s)).head? = some c := by
  cases hm : secretPattern.apply (c :: s) with
  | none => rw [Pattern.sub_skip hm, List.head?_cons]
  | some result =>
      obtain ⟨head, x, tail, his, -, heq, htext, -⟩ := secretMatch_spec hm
      obtain ⟨y, rest, rfl, -⟩ := head_starts his
      rw [Pattern.sub_match hm, htext, (List.cons.inj heq).1]
      rfl

theorem head_jwt_sub {c : CodePoint} (h : c ≠ .ofChar 'e') {s : Str} (hs : s.head? = some c) :
    (jwtPattern.sub s).head? = some c := by
  obtain ⟨rest, rfl⟩ := List.head?_eq_some_iff.mp hs
  cases hm : jwtPattern.apply (c :: rest) with
  | none => rw [Pattern.sub_skip hm, List.head?_cons]
  | some result =>
      obtain ⟨-, token, ⟨first, second, third, rfl, -⟩, heq⟩ := jwtMatch_spec hm
      exact (h (List.cons.inj heq).1).elim

theorem bearer_letter {c : CodePoint} (h : isTokenChar c = true) : Bearer [c] where
  nonempty := List.cons_ne_nil _ _
  plain d hd := .inl (List.mem_singleton.mp hd ▸ h)
  free keyword hk hinfix := by
    have hlong : (keywords.all fun keyword => 1 < keyword.length) = true := by decide +kernel
    have hlength := of_decide_eq_true (List.all_eq_true.mp hlong keyword hk)
    exact absurd hinfix.length_le (Nat.not_le.mpr hlength)

-- The token is hidden only where the cut comes before it.
theorem hidesToken_iff (host : Host φ) (limit : Int) (before after : Str) :
    HidesToken host limit before after ↔
      (max 1 limit).toNat ≤ (masked (before ++ header)).length := by
  constructor
  · intro h
    by_contra hlong
    have hfirst {c : CodePoint} (hc : c ≠ .ofChar 'e') (htoken : isTokenChar c = true) :
        (redactText limit (message before after [c]))[(masked (before ++ header)).length]? = some c := by
      have hbearer := bearer_letter htoken
      have hhead := head_jwt_sub hc (head_secret_sub c after)
      change ((masked (message before after [c])).take _)[_]? = _
      rw [masked_message hbearer, List.getElem?_take_of_lt (by omega), List.getElem?_append_right le_rfl,
        Nat.sub_self, ← List.head?_eq_getElem?]
      exact hhead
    have hsame : redactText limit (message before after [.ofChar 'a']) =
        redactText limit (message before after [.ofChar 'b']) :=
      h _ _ (bearer_letter (by decide)) (bearer_letter (by decide)) rfl
    have ha := hfirst (c := .ofChar 'a') (by decide) (by decide)
    rw [hsame, hfirst (by decide) (by decide)] at ha
    revert ha
    decide
  · intro h t u ht hu _
    change (masked (message before after t)).take _ = (masked (message before after u)).take _
    rw [masked_message ht, masked_message hu, List.take_append_of_le_length h,
      List.take_append_of_le_length h]

end Header

section Samples

theorem absent_of_tails {p : Pattern CodePoint} {s : Str}
    (h : (s.tails.all fun rest => (p.apply rest).isNone) = true) : p.Absent s :=
  fun rest hr => Option.isNone_iff_eq_none.mp (List.all_eq_true.mp h rest ((List.mem_tails _ _).mpr hr))

theorem masked_header : masked header = Str.ofString "Authorization: *** " := by
  have hmatch : secretPattern.apply header =
      some (Str.ofString "Authorization: ***", Str.ofString " ") := by decide +kernel
  have hblank : secretPattern.Absent (Str.ofString " ") := absent_of_tails (by decide +kernel)
  have hjwt : jwtPattern.Absent (Str.ofString "Authorization: *** ") := absent_of_tails (by decide +kernel)
  unfold masked
  rw [Pattern.sub_match hmatch, hblank.sub_eq]
  exact hjwt.sub_eq

def leaked : Str := .ofString "abc123"

def other : Str := .ofString "xyz789"

theorem bearer_word {s : Str} (hne : s ≠ []) (hall : s.all isTokenChar = true)
    (hfree : ∀ keyword ∈ keywords, ¬keyword <:+: s.map fold) : Bearer s :=
  ⟨hne, fun c hc => .inl (List.all_eq_true.mp hall c hc), hfree⟩

theorem masked_word {s : Str} (hsecret : (s.tails.all fun rest => (secretMatch rest).isNone) = true)
    (hjwt : (s.tails.all fun rest => (jwtMatch rest).isNone) = true) : masked (s ++ []) = s := by
  have hs : secretPattern.Absent s := absent_of_tails hsecret
  have hj : jwtPattern.Absent s := absent_of_tails hjwt
  unfold masked
  rw [List.append_nil, hs.sub_eq, hj.sub_eq]

-- Authorization: *** abc123
theorem token_seen : ¬∀ before after, HidesToken Record.plainHost 500 before after := by
  intro h
  have hleaked : Bearer leaked := bearer_word (by decide) (by decide +kernel) (by decide +kernel)
  have hother : Bearer other := bearer_word (by decide) (by decide +kernel) (by decide +kernel)
  have hsame : (masked (message [] [] leaked)).take 500 = (masked (message [] [] other)).take 500 :=
    h [] [] leaked other hleaked hother (by decide)
  rw [masked_message hleaked, masked_message hother, List.nil_append, masked_header,
    masked_word (by decide +kernel) (by decide +kernel),
    masked_word (by decide +kernel) (by decide +kernel)] at hsame
  revert hsame
  decide +kernel

end Samples

end YasinCore.Contracts
