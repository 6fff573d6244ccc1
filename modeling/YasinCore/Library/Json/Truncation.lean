import YasinCore.Library.Json.RoundTrip
import Mathlib.Data.List.TakeWhile
import Mathlib.Data.Option.Basic

namespace YasinCore.Library.Json

variable {φ : Type} {floats : Floats φ} {finite : φ → Prop} {fuel more indent : Nat}
  {s t rest x : List Char}

-- A value inside of a container is followed by one of these.
def Closes (rest : List Char) : Prop :=
  ∃ c t, rest = c :: t ∧ c ∈ [' ', '\t', '\n', '\r', ',', ']', '}']

-- A value that starts with one of these says itself where it ends.
def Bracketed (s : List Char) : Prop := ∃ c t, s = c :: t ∧ c ∈ ['"', '{', '[']

theorem skip_append (h : skip s ≠ []) (x : List Char) : skip (s ++ x) = skip s ++ x := by
  rw [skip, List.dropWhile_append, if_neg]
  · rfl
  · exact fun he => h (List.isEmpty_iff.mp he)

theorem skip_append_cons {c : Char} (h : skip s = c :: t) (x : List Char) :
    skip (s ++ x) = c :: (t ++ x) := by
  rw [skip_append (h ▸ List.cons_ne_nil _ _), h, List.cons_append]

theorem closes_of_skip {c : Char} (h : skip s = c :: t) (hc : c ∈ [',', ']', '}']) : Closes s := by
  cases s with
  | nil => cases h
  | cons d s =>
      refine ⟨d, s, rfl, ?_⟩
      cases hd : isSpace d with
      | true =>
          have hspace : d ∈ [' ', '\t', '\n', '\r'] := of_decide_eq_true hd
          exact List.mem_append_left [',', ']', '}'] hspace
      | false =>
          rw [skip_cons hd] at h
          obtain ⟨rfl, -⟩ := List.cons.inj h
          exact List.mem_append_right [' ', '\t', '\n', '\r'] hc

section Strings

theorem chars_append {units : List CodePoint} (h : chars s = some (units, rest)) (x : List Char) :
    chars (s ++ x) = some (units, rest ++ x) := by
  induction s using chars.induct generalizing units rest with
  | case1 => cases h
  | case2 t =>
      cases h
      rfl
  | case3 a b c d t ih =>
      simp only [chars, Option.bind_eq_bind, Option.bind_eq_some_iff] at h
      obtain ⟨unit, hunit, ⟨others, u⟩, hothers, h⟩ := h
      cases h
      simp only [List.cons_append, chars, hunit, ih hothers, Option.bind_eq_bind, Option.bind_some]
      rfl
  | case4 e t hno ih =>
      have hu : e ≠ 'u' := by
        rintro rfl
        rw [chars] at h
        · cases h
        · exact hno
      rw [chars] at h
      · simp only [Option.bind_eq_bind, Option.bind_eq_some_iff] at h
        obtain ⟨unit, hunit, ⟨others, u⟩, hothers, h⟩ := h
        cases h
        rw [List.cons_append, List.cons_append, chars, hunit, ih hothers]
        · rfl
        · exact fun _ _ _ _ _ he _ => hu he
      · exact hno
  | case5 c t hquote hescape hback ih =>
      rw [chars] at h
      · simp only [Option.bind_eq_bind, Option.bind_eq_some_iff] at h
        obtain ⟨_, hguard, ⟨others, u⟩, hothers, h⟩ := h
        have hplain : c ≠ '\\' := by
          rintro rfl
          cases t with
          | nil => cases hothers
          | cons e t => exact hback e t rfl rfl
        cases h
        rw [List.cons_append, chars, hguard, ih hothers]
        · rfl
        · exact hquote
        · exact fun _ _ _ _ _ he _ => hplain he
        · exact fun _ _ he _ => hplain he
      · exact hquote
      · exact hescape
      · exact hback

theorem string_append {key : Str} (h : string s = some (key, rest)) (x : List Char) :
    string (s ++ x) = some (key, rest ++ x) := by
  obtain ⟨⟨units, u⟩, hunits, h⟩ := Option.map_eq_some_iff.mp h
  cases h
  rw [string, chars_append hunits, Option.map_some]

end Strings

section Numbers

theorem Closes.cons {c : Char} (h : Closes (c :: t)) :
    c.isDigit = false ∧ c ∉ ['.', 'e', 'E', '+', '-'] := by
  obtain ⟨_, _, he, hc⟩ := h
  obtain ⟨rfl, -⟩ := List.cons.inj he
  simp only [List.mem_cons, List.not_mem_nil, or_false] at hc
  rcases hc with rfl | rfl | rfl | rfl | rfl | rfl | rfl <;> decide

theorem Closes.ne_nil (h : Closes rest) : rest ≠ [] := by
  obtain ⟨c, t, rfl, -⟩ := h
  exact List.cons_ne_nil c t

theorem digits_append (h : s.dropWhile Char.isDigit ≠ []) (x : List Char) :
    (s ++ x).takeWhile Char.isDigit = s.takeWhile Char.isDigit ∧
      (s ++ x).dropWhile Char.isDigit = s.dropWhile Char.isDigit ++ x := by
  induction s with
  | nil => exact absurd rfl h
  | cons c s ih =>
      cases hc : c.isDigit with
      | false => simp [hc]
      | true =>
          rw [List.dropWhile_cons_of_pos hc] at h
          obtain ⟨htake, hdrop⟩ := ih h
          simp [hc, htake, hdrop]

theorem sign_append {signs : List Char} (h : (sign signs s).2 ≠ []) (x : List Char) :
    sign signs (s ++ x) = ((sign signs s).1, (sign signs s).2 ++ x) := by
  cases s with
  | nil => exact absurd rfl h
  | cons c s =>
      rw [List.cons_append, sign, sign]
      split <;> rfl

theorem whole_append {digits : List Char} (h : whole s = some (digits, rest)) (hr : rest ≠ [])
    (x : List Char) : whole (s ++ x) = some (digits, rest ++ x) := by
  cases s with
  | nil => cases h
  | cons c s =>
      by_cases hc : c = '0'
      · subst hc
        cases h
        rfl
      · have hno (t : List Char) : ∀ rest, c :: t = '0' :: rest → False :=
          fun _ he => hc (List.cons.inj he).1
        rw [whole] at h
        · rw [Option.ite_none_left_eq_some] at h
          obtain ⟨hne, h⟩ := h
          cases h
          obtain ⟨htake, hdrop⟩ := digits_append hr x
          rw [List.cons_append] at htake hdrop ⊢
          rw [whole, htake, hdrop, if_neg hne]
          · exact fun he => List.cons_ne_nil _ _ he
          · exact hno _
        · exact fun he => List.cons_ne_nil _ _ he
        · exact hno _

theorem exponent_ne_nil (h : Closes (exponent s).2) : s ≠ [] := by
  rintro rfl
  exact h.ne_nil rfl

theorem fraction_append (h : Closes (exponent (fraction s).2).2) (x : List Char) :
    fraction (s ++ x) = ((fraction s).1, (fraction s).2 ++ x) := by
  have hrest := exponent_ne_nil h
  cases s with
  | nil => exact absurd rfl hrest
  | cons c s =>
      by_cases hc : c = '.'
      · subst hc
        rw [List.cons_append]
        simp only [fraction] at h hrest ⊢
        by_cases hd : s.takeWhile Char.isDigit = []
        · rw [if_pos hd] at h
          exact absurd (List.mem_cons_self : '.' ∈ ['.', 'e', 'E', '+', '-']) h.cons.2
        · rw [if_neg hd] at hrest
          obtain ⟨htake, hdrop⟩ := digits_append hrest x
          rw [htake, hdrop, if_neg hd, if_neg hd]
      · have hno (t : List Char) : ∀ rest, c :: t = '.' :: rest → False :=
          fun _ he => hc (List.cons.inj he).1
        rw [List.cons_append, fraction, fraction]
        · rfl
        · exact hno _
        · exact hno _

theorem exponent_append (h : Closes (exponent s).2) (x : List Char) :
    exponent (s ++ x) = ((exponent s).1, (exponent s).2 ++ x) := by
  cases s with
  | nil => exact absurd rfl h.ne_nil
  | cons e s =>
      rw [List.cons_append]
      simp only [exponent] at h ⊢
      by_cases hd : e ∈ ['e', 'E'] ∧ (sign ['+', '-'] s).2.takeWhile Char.isDigit ≠ []
      · rw [if_pos hd] at h
        have hdigits := h.ne_nil
        have hsigned : (sign ['+', '-'] s).2 ≠ [] := by
          intro he
          rw [he] at hdigits
          exact hdigits rfl
        obtain ⟨htake, hdrop⟩ := digits_append hdigits x
        simp only [sign_append hsigned x, htake, hdrop, if_pos hd]
      · rw [if_neg hd] at h
        have he : e ∉ ['e', 'E'] := by
          intro hm
          exact h.cons.2 (List.mem_cons_of_mem _ (List.mem_append_left ['+', '-'] hm))
        rw [if_neg fun hboth => he hboth.1, if_neg hd]
        rfl

theorem number_append {v : Json φ} (h : number floats s = some (v, rest)) (hr : Closes rest)
    (x : List Char) : number floats (s ++ x) = some (v, rest ++ x) := by
  simp only [number, Option.bind_eq_bind, Option.bind_eq_some_iff] at h
  obtain ⟨⟨digits, t⟩, hwhole, h⟩ := h
  have hclose : Closes (exponent (fraction t).2).2 := by
    split at h <;> cases h <;> exact hr
  have hfrac := fraction_append hclose x
  have hexp := exponent_append hclose x
  have ht : t ≠ [] := by
    rintro rfl
    exact hclose.ne_nil rfl
  have hsigned : (sign ['-'] s).2 ≠ [] := by
    intro he
    rw [he] at hwhole
    cases hwhole
  simp only [number, sign_append hsigned x, whole_append hwhole ht x, hfrac, hexp,
    Option.bind_eq_bind, Option.bind_some]
  by_cases hint : (fraction t).1 = [] ∧ (exponent (fraction t).2).1 = []
  · rw [if_pos hint] at h ⊢
    cases h
    rfl
  · rw [if_neg hint] at h ⊢
    cases h
    rfl

theorem whole_head {digits : List Char} (h : whole s = some (digits, rest)) :
    ∃ d u, s = d :: u ∧ d.isDigit = true := by
  cases s with
  | nil => cases h
  | cons c s =>
      refine ⟨c, s, rfl, ?_⟩
      by_contra hc
      have hzero : ∀ rest, c :: s = '0' :: rest → False := by
        intro rest he
        exact hc ((List.cons.inj he).1 ▸ rfl)
      rw [whole] at h
      · rw [List.takeWhile_cons_of_neg hc, if_pos rfl] at h
        cases h
      · exact fun he => List.cons_ne_nil _ _ he
      · exact hzero

-- A number starts with a digit, or with a sign and a digit.
theorem number_start {v : Json φ} (h : number floats s = some (v, rest)) : ∃ c t, s = c :: t ∧
    (c.isDigit = true ∨ c = '-' ∧ ∃ d u, t = d :: u ∧ d.isDigit = true) := by
  simp only [number, Option.bind_eq_bind, Option.bind_eq_some_iff] at h
  obtain ⟨⟨digits, t⟩, hwhole, -⟩ := h
  obtain ⟨d, u, hd, hdigit⟩ := whole_head hwhole
  cases s with
  | nil => cases hd
  | cons c s =>
      refine ⟨c, s, rfl, ?_⟩
      rw [sign] at hd
      by_cases hc : c ∈ ['-']
      · rw [if_pos hc] at hd
        exact .inr ⟨List.mem_singleton.mp hc, d, u, hd, hdigit⟩
      · rw [if_neg hc] at hd
        exact .inl ((List.cons.inj hd).1 ▸ hdigit)

end Numbers

section Values

theorem literal_mem {v : Json φ} (h : literal floats s = some (v, rest)) :
    ∃ text, (text, v) ∈ literals floats ∧ s = text ++ rest := by
  obtain ⟨⟨text, value⟩, hm, hentry⟩ := List.exists_of_findSome?_eq_some h
  rw [Option.ite_none_right_eq_some] at hentry
  obtain ⟨hp, he⟩ := hentry
  cases he
  obtain ⟨t, rfl⟩ := List.isPrefixOf_iff_prefix.mp hp
  exact ⟨text, hm, by rw [List.drop_left]⟩

theorem literal_of_mem {text : List Char} {v : Json φ} (h : (text, v) ∈ literals floats)
    (rest : List Char) : literal floats (text ++ rest) = some (v, rest) := by
  simp only [literals, List.mem_cons, List.not_mem_nil, or_false, Prod.mk.injEq] at h
  rcases h with ⟨rfl, rfl⟩ | ⟨rfl, rfl⟩ | ⟨rfl, rfl⟩ | ⟨rfl, rfl⟩ | ⟨rfl, rfl⟩ | ⟨rfl, rfl⟩ <;>
    simp [literal, literals]

theorem literal_append {v : Json φ} (h : literal floats s = some (v, rest)) (x : List Char) :
    literal floats (s ++ x) = some (v, rest ++ x) := by
  obtain ⟨text, hm, rfl⟩ := literal_mem h
  rw [List.append_assoc, literal_of_mem hm]

theorem scalar_append {v : Json φ} (h : (literal floats s).or (number floats s) = some (v, rest))
    (hr : Closes rest) (x : List Char) :
    (literal floats (s ++ x)).or (number floats (s ++ x)) = some (v, rest ++ x) := by
  cases hl : literal floats s with
  | some result =>
      rw [hl, Option.some_or] at h
      rw [literal_append (hl.trans h) x, Option.some_or]
  | none =>
      rw [hl, Option.none_or] at h
      obtain ⟨c, t, rfl, hc⟩ := number_start h
      rw [List.cons_append, literal_number, Option.none_or, ← List.cons_append,
        number_append h hr x]
      exact hc.imp_right fun ⟨he, d, u, ht, hd⟩ => ⟨he, d, u ++ x, by rw [ht, List.cons_append], hd⟩

theorem value_nil : value floats fuel [] = none := by
  cases fuel with
  | zero => rfl
  | succ fuel => rfl

theorem items_nil : Json.items floats fuel [] = none := by
  cases fuel with
  | zero => rfl
  | succ fuel => rw [Json.items, value_nil]; rfl

theorem members_nil : members floats fuel [] = none := by
  cases fuel with
  | zero => rfl
  | succ fuel => rfl

theorem items_cases {found : List (Json φ)}
    (h : Json.items floats (fuel + 1) s = some (found, rest)) :
    ∃ item t, value floats fuel s = some (item, t) ∧ (skip t = ']' :: rest ∧ found = [item] ∨
      ∃ u others, skip t = ',' :: u ∧ Json.items floats fuel (skip u) = some (others, rest) ∧
        found = item :: others) := by
  rw [Json.items] at h
  obtain ⟨⟨item, t⟩, hv, h⟩ := Option.bind_eq_some_iff.mp h
  refine ⟨item, t, hv, ?_⟩
  simp only at h
  split at h
  · next ht =>
      cases h
      exact .inl ⟨ht, rfl⟩
  · next u ht =>
      obtain ⟨⟨others, w⟩, hi, h⟩ := Option.bind_eq_some_iff.mp h
      cases h
      exact .inr ⟨u, others, ht, hi, rfl⟩
  · cases h

theorem members_cases {found : List (Str × Json φ)}
    (h : members floats (fuel + 1) s = some (found, rest)) :
    ∃ inside key t u item v, s = '"' :: inside ∧ string inside = some (key, t) ∧ skip t = ':' :: u ∧
      value floats fuel (skip u) = some (item, v) ∧ (skip v = '}' :: rest ∧ found = [(key, item)] ∨
        ∃ w others, skip v = ',' :: w ∧ members floats fuel (skip w) = some (others, rest) ∧
          found = (key, item) :: others) := by
  rw [members.eq_def] at h
  simp only at h
  split at h
  · next inside =>
      obtain ⟨⟨key, t⟩, hk, h⟩ := Option.bind_eq_some_iff.mp h
      simp only at h
      split at h
      · next u ht =>
          obtain ⟨⟨item, v⟩, hv, h⟩ := Option.bind_eq_some_iff.mp h
          refine ⟨inside, key, t, u, item, v, rfl, hk, ht, hv, ?_⟩
          simp only at h
          split at h
          · next hs =>
              cases h
              exact .inl ⟨hs, rfl⟩
          · next w hs =>
              obtain ⟨⟨others, z⟩, hm, h⟩ := Option.bind_eq_some_iff.mp h
              cases h
              exact .inr ⟨w, others, hs, hm, rfl⟩
          · cases h
      · cases h
  · cases h

-- The three kinds of value that say themselves where they end, and the others.
theorem value_cases {v : Json φ} (h : value floats (fuel + 1) s = some (v, rest)) :
    (∃ inside key, s = '"' :: inside ∧ string inside = some (key, rest) ∧ v = str key) ∨
    (∃ inside, s = '{' :: inside ∧ (skip inside = '}' :: rest ∧ v = dict [] ∨
      ∃ found, (skip inside).head? ≠ some '}' ∧ members floats fuel (skip inside) = some (found, rest) ∧
        v = dict (found.foldl (fun entries entry => Entries.assign entry.1 entry.2 entries) []))) ∨
    (∃ inside, s = '[' :: inside ∧ (skip inside = ']' :: rest ∧ v = list [] ∨
      ∃ found, (skip inside).head? ≠ some ']' ∧
        Json.items floats fuel (skip inside) = some (found, rest) ∧ v = list found)) ∨
    (¬Bracketed s ∧ (literal floats s).or (number floats s) = some (v, rest)) := by
  cases s with
  | nil =>
      rw [value_nil] at h
      cases h
  | cons c s =>
      by_cases hc : c ∈ ['"', '{', '[']
      · simp only [List.mem_cons, List.not_mem_nil, or_false] at hc
        rcases hc with rfl | rfl | rfl
        · refine .inl ⟨s, ?_⟩
          rw [value] at h
          obtain ⟨⟨key, t⟩, hk, h⟩ := Option.map_eq_some_iff.mp h
          cases h
          exact ⟨key, rfl, hk, rfl⟩
        · refine .inr (.inl ⟨s, rfl, ?_⟩)
          by_cases hend : (skip s).head? = some '}'
          · obtain ⟨t, ht⟩ := List.head?_eq_some_iff.mp hend
            simp only [value, ht] at h
            cases h
            exact .inl ⟨ht, rfl⟩
          · rw [value_dict rfl hend] at h
            obtain ⟨⟨found, t⟩, hm, h⟩ := Option.map_eq_some_iff.mp h
            cases h
            exact .inr ⟨found, hend, hm, rfl⟩
        · refine .inr (.inr (.inl ⟨s, rfl, ?_⟩))
          by_cases hend : (skip s).head? = some ']'
          · obtain ⟨t, ht⟩ := List.head?_eq_some_iff.mp hend
            simp only [value, ht] at h
            cases h
            exact .inl ⟨ht, rfl⟩
          · rw [value_list rfl hend] at h
            obtain ⟨⟨found, t⟩, hm, h⟩ := Option.map_eq_some_iff.mp h
            cases h
            exact .inr ⟨found, hend, hm, rfl⟩
      · rw [value_scalar hc] at h
        refine .inr (.inr (.inr ⟨?_, h⟩))
        rintro ⟨d, t, he, hd⟩
        obtain ⟨rfl, -⟩ := List.cons.inj he
        exact hc hd

theorem head?_skip_append {c : Char} (h : (skip s).head? ≠ some c) (hne : skip s ≠ []) (x : List Char) :
    (skip (s ++ x)).head? ≠ some c := by
  rw [skip_append hne]
  cases hs : skip s with
  | nil => exact absurd hs hne
  | cons d t => rwa [hs] at h

mutual

-- What follows the text of a parse is not looked at, and more fuel does no harm.
theorem value_append : (fuel : Nat) → ∀ {s rest : List Char} {v : Json φ},
    value floats fuel s = some (v, rest) → Bracketed s ∨ Closes rest → ∀ more, fuel ≤ more →
      ∀ x, value floats more (s ++ x) = some (v, rest ++ x)
  | 0, _, _, _, h, _, _, _, _ => nomatch h
  | fuel + 1, s, rest, v, h, hends, more + 1, hmore, x => by
      have hfuel : fuel ≤ more := Nat.le_of_succ_le_succ hmore
      rcases value_cases h with ⟨inside, key, rfl, hk, rfl⟩ | ⟨inside, rfl, hd⟩ | ⟨inside, rfl, hi⟩ | ⟨hno, hv⟩
      · rw [List.cons_append, value, string_append hk x, Option.map_some]
      · rcases hd with ⟨ht, rfl⟩ | ⟨found, hhead, hm, rfl⟩
        · rw [List.cons_append]
          simp only [value, skip_append_cons ht x]
        · have hne : skip inside ≠ [] := by
            intro he
            rw [he, members_nil] at hm
            cases hm
          rw [List.cons_append, value_dict rfl (head?_skip_append hhead hne x), skip_append hne,
            members_append fuel hm more hfuel x, Option.map_some]
      · rcases hi with ⟨ht, rfl⟩ | ⟨found, hhead, hm, rfl⟩
        · rw [List.cons_append]
          simp only [value, skip_append_cons ht x]
        · have hne : skip inside ≠ [] := by
            intro he
            rw [he, items_nil] at hm
            cases hm
          rw [List.cons_append, value_list rfl (head?_skip_append hhead hne x), skip_append hne,
            items_append fuel hm more hfuel x, Option.map_some]
      · have hread := scalar_append hv (hends.resolve_left hno) x
        cases s with
        | nil => cases hv
        | cons c s =>
            rw [List.cons_append, value_scalar, ← List.cons_append]
            · exact hread
            · exact fun hc => hno ⟨c, s, rfl, hc⟩
  | _ + 1, _, _, _, _, _, 0, hmore, _ => absurd hmore (Nat.not_succ_le_zero _)

theorem items_append : (fuel : Nat) → ∀ {s rest : List Char} {found : List (Json φ)},
    Json.items floats fuel s = some (found, rest) → ∀ more, fuel ≤ more →
      ∀ x, Json.items floats more (s ++ x) = some (found, rest ++ x)
  | 0, _, _, _, h, _, _, _ => nomatch h
  | fuel + 1, s, rest, found, h, more + 1, hmore, x => by
      have hfuel : fuel ≤ more := Nat.le_of_succ_le_succ hmore
      obtain ⟨item, t, hv, ⟨ht, rfl⟩ | ⟨u, others, ht, hi, rfl⟩⟩ := items_cases h
      · have hread := value_append fuel hv (.inr (closes_of_skip ht (by simp))) more hfuel x
        exact items_last hread (skip_append_cons ht x)
      · have hread := value_append fuel hv (.inr (closes_of_skip ht (by simp))) more hfuel x
        have hne : skip u ≠ [] := by
          intro he
          rw [he, items_nil] at hi
          cases hi
        refine items_more hread (skip_append_cons ht x) ?_
        rw [skip_append hne]
        exact items_append fuel hi more hfuel x
  | _ + 1, _, _, _, _, 0, hmore, _ => absurd hmore (Nat.not_succ_le_zero _)

theorem members_append : (fuel : Nat) → ∀ {s rest : List Char} {found : List (Str × Json φ)},
    members floats fuel s = some (found, rest) → ∀ more, fuel ≤ more →
      ∀ x, members floats more (s ++ x) = some (found, rest ++ x)
  | 0, _, _, _, h, _, _, _ => nomatch h
  | fuel + 1, s, rest, found, h, more + 1, hmore, x => by
      have hfuel : fuel ≤ more := Nat.le_of_succ_le_succ hmore
      obtain ⟨inside, key, t, u, item, v, rfl, hk, ht, hv, hrest⟩ := members_cases h
      have hkey := string_append hk x
      have hu : skip u ≠ [] := by
        intro he
        rw [he, value_nil] at hv
        cases hv
      rcases hrest with ⟨hend, rfl⟩ | ⟨w, others, hend, hm, rfl⟩
      · have hread := value_append fuel hv (.inr (closes_of_skip hend (by simp))) more hfuel x
        rw [← skip_append hu] at hread
        exact members_last hkey (skip_append_cons ht x) hread (skip_append_cons hend x)
      · have hread := value_append fuel hv (.inr (closes_of_skip hend (by simp))) more hfuel x
        rw [← skip_append hu] at hread
        have hw : skip w ≠ [] := by
          intro he
          rw [he, members_nil] at hm
          cases hm
        refine members_more hkey (skip_append_cons ht x) hread (skip_append_cons hend x) ?_
        rw [skip_append hw]
        exact members_append fuel hm more hfuel x
  | _ + 1, _, _, _, _, 0, hmore, _ => absurd hmore (Nat.not_succ_le_zero _)

end

-- A text that starts with a bracket and decodes begins no other one that decodes.
theorem skip_of_decode {v w : Json φ} (hs : decode floats s = some v) (hb : Bracketed s)
    (hx : decode floats (s ++ x) = some w) : skip x = [] := by
  have hskip (t : List Char) : skip (s ++ t) = s ++ t := by
    obtain ⟨c, u, rfl, hc⟩ := hb
    refine skip_cons (decide_eq_false fun hspace => ?_)
    simp only [List.mem_cons, List.not_mem_nil, or_false] at hc
    rcases hc with rfl | rfl | rfl <;> exact absurd hspace (by decide)
  have hnil := hskip []
  rw [List.append_nil] at hnil
  obtain ⟨⟨_, rest⟩, hv, hs⟩ := Option.bind_eq_some_iff.mp hs
  obtain ⟨⟨_, other⟩, hw, hx⟩ := Option.bind_eq_some_iff.mp hx
  obtain ⟨_, hrest, -⟩ := Option.bind_eq_some_iff.mp hs
  obtain ⟨_, hother, -⟩ := Option.bind_eq_some_iff.mp hx
  have hrest : skip rest = [] := (Option.guard_eq_some' _).mp hrest
  have hother : skip other = [] := (Option.guard_eq_some' _).mp hother
  rw [hnil] at hv
  rw [hskip] at hw
  have hlength : 2 * s.length ≤ 2 * (s ++ x).length := by
    rw [List.length_append]
    omega
  have hread := value_append _ hv (.inl hb) _ hlength x
  obtain ⟨-, rfl⟩ := Prod.mk.inj (Option.some.inj (hread.symm.trans hw))
  rw [skip, List.dropWhile_append] at hother
  have hempty : (rest.dropWhile isSpace).isEmpty := List.isEmpty_iff.mpr hrest
  rwa [if_pos hempty] at hother

end Values

section Torn

variable (floats : Floats φ) (indent : Nat)

theorem skip_closed {c : Char} (h : isSpace c = false) : skip (t ++ [c]) ≠ [] := by
  intro he
  have hall : ∀ d ∈ t ++ [c], isSpace d = true := List.dropWhile_eq_nil_iff.mp he
  exact Bool.false_ne_true (h.symm.trans (hall c (by simp)))

-- The text of a dictionary is closed by its last character.
theorem encode_dict_closed {entries : List (Str × Json φ)} (h : (dict entries).Representable finite) :
    ∃ t u, (encode floats indent 0 (dict entries)).text = '{' :: t ∧
      (encode floats indent 0 (dict entries)).text = u ++ ['}'] := by
  cases entries with
  | nil => exact ⟨['}'], ['{'], rfl, rfl⟩
  | cons entry entries =>
      rw [encode_dict_text floats indent h, ← List.append_assoc]
      exact ⟨_, _, rfl, (List.cons_append ..).symm⟩

variable {floats} in
-- A beginning of the text of a dictionary that is not all of it does not decode.
theorem decode_torn (hl : LawfulFloats floats finite) {entries : List (Str × Json φ)}
    (h : (dict entries).Representable finite)
    (hs : s <+: (encode floats indent 0 (dict entries)).text)
    (hne : s ≠ (encode floats indent 0 (dict entries)).text) : decode floats s = none := by
  obtain ⟨t, u, hopen, hclose⟩ := encode_dict_closed floats indent h
  have hwhole : decode floats (encode floats indent 0 (dict entries)).text = some (dict entries) :=
    decode_encode hl h
  obtain ⟨x, hx⟩ := hs
  rw [← hx] at hwhole hne hopen hclose
  have hmore : x ≠ [] := fun he => hne (by rw [he, List.append_nil])
  cases hd : decode floats s with
  | none => rfl
  | some v =>
      cases s with
      | nil =>
          rw [decode, show skip [] = [] from rfl, value_nil] at hd
          cases hd
      | cons c s =>
          obtain ⟨rfl, -⟩ := List.cons.inj hopen
          have hskip := skip_of_decode hd ⟨'{', s, rfl, by simp⟩ hwhole
          obtain ⟨x, d, rfl⟩ := (List.eq_nil_or_concat' x).resolve_left hmore
          rw [← List.append_assoc] at hclose
          obtain rfl : d = '}' := List.singleton_inj.mp (List.append_inj_right' hclose rfl)
          exact absurd hskip (skip_closed (by decide))

end Torn

section Refused

mutual

-- The value with null in place of what an encoder refuses.
def patched : Json φ → Json φ
  | null => null
  | bool b => bool b
  | int n => int n
  | float y => float y
  | str key => str key
  | list items => list (patchedItems items)
  | dict entries => dict (patchedEntries entries)
  | object _ => null

def patchedItems : List (Json φ) → List (Json φ)
  | [] => []
  | item :: items => item.patched :: patchedItems items

def patchedEntries : List (Str × Json φ) → List (Str × Json φ)
  | [] => []
  | (key, item) :: entries => (key, item.patched) :: patchedEntries entries

end

-- The first output is the second one, or a refusal cut it short.
def Output.Cut (out full : Output) : Prop :=
  full.refusal = none ∧ (out = full ∨ out.refusal.isSome ∧ ∃ x, x ≠ [] ∧ full.text = out.text ++ x)

theorem Output.Cut.emit (text : List Char) : (emit text).Cut (emit text) := ⟨rfl, .inl rfl⟩

theorem Output.emit_append (text : List Char) (out : Output) :
    emit text ++ out = ⟨text ++ out.text, out.refusal⟩ := rfl

theorem Output.Cut.append {out full other whole : Output} (h : out.Cut full) (ho : other.Cut whole) :
    (out ++ other).Cut (full ++ whole) := by
  obtain ⟨hfull, h⟩ := h
  obtain ⟨hwhole, ho⟩ := ho
  rw [Output.eq_emit hfull] at h ⊢
  rcases h with rfl | ⟨hr, x, hne, hx⟩
  · rw [emit_append, emit_append]
    refine ⟨hwhole, ?_⟩
    rcases ho with rfl | ⟨hr, x, hne, hx⟩
    · exact .inl rfl
    · exact .inr ⟨hr, x, hne, by rw [hx, List.append_assoc]⟩
  · obtain ⟨text, refusal⟩ := out
    cases refusal with
    | none => cases hr
    | some e =>
        rw [emit_append]
        refine ⟨hwhole, .inr ⟨rfl, x ++ whole.text, ?_, ?_⟩⟩
        · exact fun he => hne (List.append_eq_nil_iff.mp he).1
        · show full.text ++ whole.text = text ++ (x ++ whole.text)
          rw [show full.text = text ++ x from hx, List.append_assoc]

variable (floats : Floats φ) (indent : Nat)

mutual

theorem encode_cut : (v : Json φ) → (level : Nat) →
    (encode floats indent level v).Cut (encode floats indent level v.patched)
  | null, _ | bool true, _ | bool false, _ | int _, _ | float _, _ | str _, _ => ⟨rfl, .inl rfl⟩
  | list [], _ | dict [], _ => ⟨rfl, .inl rfl⟩
  | list (item :: items), level =>
      ((Output.Cut.emit ['[']).append (encodeItems_cut (item :: items) (level + 1) _)).append (.emit _)
  | dict ((key, item) :: entries), level =>
      ((Output.Cut.emit ['{']).append
        (encodeEntries_cut ((key, item) :: entries) (level + 1) _)).append (.emit _)
  | object _, _ => ⟨rfl, .inr ⟨rfl, ['n', 'u', 'l', 'l'], List.cons_ne_nil _ _, rfl⟩⟩

theorem encodeItems_cut : (items : List (Json φ)) → (level : Nat) → (sep : List Char) →
    (encodeItems floats indent level sep items).Cut
      (encodeItems floats indent level sep (patchedItems items))
  | [], _, _ => ⟨rfl, .inl rfl⟩
  | item :: items, level, sep =>
      ((Output.Cut.emit sep).append (encode_cut item level)).append (encodeItems_cut items level _)

theorem encodeEntries_cut : (entries : List (Str × Json φ)) → (level : Nat) → (sep : List Char) →
    (encodeEntries floats indent level sep entries).Cut
      (encodeEntries floats indent level sep (patchedEntries entries))
  | [], _, _ => ⟨rfl, .inl rfl⟩
  | (_, item) :: entries, level, _ =>
      ((Output.Cut.emit _).append (encode_cut item level)).append (encodeEntries_cut entries level _)

end

-- A value that the format can express but for what an encoder refuses.
def Expressible (finite : φ → Prop) (v : Json φ) : Prop := v.patched.Representable finite

theorem expressible_dict_iff {entries : List (Str × Json φ)} (hn : (entries.map Prod.fst).Nodup) :
    (dict entries).Expressible finite ↔
      ∀ entry ∈ entries, Paired entry.1 ∧ entry.2.Expressible finite := by
  have hkeys (entries : List (Str × Json φ)) :
      (patchedEntries entries).map Prod.fst = entries.map Prod.fst := by
    induction entries with
    | nil => simp [patchedEntries]
    | cons entry entries ih => simp [patchedEntries, ih]
  have hentries (entries : List (Str × Json φ)) : RepresentableEntries finite (patchedEntries entries) ↔
      ∀ entry ∈ entries, Paired entry.1 ∧ entry.2.Expressible finite := by
    induction entries with
    | nil => simp [patchedEntries, RepresentableEntries]
    | cons entry entries ih =>
        simp [patchedEntries, RepresentableEntries, ih, Expressible, and_assoc]
  rw [Expressible, patched, Representable, hkeys, and_iff_right hn, hentries]

-- What is written of a dictionary decodes to nothing unless it was written as a whole.
theorem decode_refused {floats : Floats φ} (hl : LawfulFloats floats finite)
    {entries : List (Str × Json φ)} (h : (dict entries).Expressible finite)
    (hs : s <+: (encode floats indent 0 (dict entries)).text)
    (hne : s = (encode floats indent 0 (dict entries)).text →
      (encode floats indent 0 (dict entries)).refusal.isSome) : decode floats s = none := by
  obtain ⟨hfull, hcut⟩ := encode_cut floats indent (dict entries) 0
  rw [Expressible, patched] at h
  rw [patched] at hfull hcut
  refine decode_torn indent hl h ?_ ?_
  · rcases hcut with he | ⟨-, x, -, hx⟩
    · exact he ▸ hs
    · rw [hx]
      exact hs.trans (List.prefix_append _ _)
  · rintro rfl
    rcases hcut with he | ⟨-, x, hx, htext⟩
    · have hrefused := hne (congrArg Output.text he.symm)
      rw [he, hfull] at hrefused
      cases hrefused
    · have hlength := hs.length_le
      rw [htext, List.length_append] at hlength
      exact hx (List.length_eq_zero_iff.mp (by omega))

theorem Output.refusal_append {out other : Output} (h : (out ++ other).refusal = none) :
    out.refusal = none ∧ other.refusal = none := by
  obtain ⟨text, refusal⟩ := out
  cases refusal with
  | none => exact ⟨rfl, h⟩
  | some e => cases h

mutual

-- An encoder that refuses nothing of a value has nothing to patch.
theorem patched_of_refusal : (v : Json φ) → (level : Nat) →
    (encode floats indent level v).refusal = none → v.patched = v
  | null, _, _ | bool _, _, _ | int _, _, _ | float _, _, _ | str _, _, _ => by simp [patched]
  | list [], _, _ => by simp [patched, patchedItems]
  | dict [], _, _ => by simp [patched, patchedEntries]
  | list (item :: items), level, h => by
      obtain ⟨-, hitems⟩ := Output.refusal_append (Output.refusal_append h).1
      rw [patched, patchedItems_of_refusal (item :: items) (level + 1) _ hitems]
  | dict ((key, item) :: entries), level, h => by
      obtain ⟨-, hentries⟩ := Output.refusal_append (Output.refusal_append h).1
      rw [patched, patchedEntries_of_refusal ((key, item) :: entries) (level + 1) _ hentries]
  | object _, _, h => nomatch h

theorem patchedItems_of_refusal : (items : List (Json φ)) → (level : Nat) → (sep : List Char) →
    (encodeItems floats indent level sep items).refusal = none → patchedItems items = items
  | [], _, _, _ => rfl
  | item :: items, level, sep, h => by
      obtain ⟨hfirst, hitems⟩ := Output.refusal_append h
      obtain ⟨-, hitem⟩ := Output.refusal_append hfirst
      rw [patchedItems, patched_of_refusal item level hitem, patchedItems_of_refusal items level _ hitems]

theorem patchedEntries_of_refusal : (entries : List (Str × Json φ)) → (level : Nat) →
    (sep : List Char) → (encodeEntries floats indent level sep entries).refusal = none →
      patchedEntries entries = entries
  | [], _, _, _ => rfl
  | (key, item) :: entries, level, sep, h => by
      obtain ⟨hfirst, hentries⟩ := Output.refusal_append h
      obtain ⟨-, hitem⟩ := Output.refusal_append hfirst
      rw [patchedEntries, patched_of_refusal item level hitem,
        patchedEntries_of_refusal entries level _ hentries]

end

end Refused

end YasinCore.Library.Json
