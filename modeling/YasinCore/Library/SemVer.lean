import Mathlib.Data.List.Lex
import Mathlib.Data.Prod.Lex
import Mathlib.Data.Sum.Order
import YasinCore.Library.Text

namespace YasinCore.Library

namespace SemVer

-- Letters, digits and hyphens
def isIdentifierChar (c : Char) : Bool := c.isAlphanum || c = '-'

structure Identifier where
  text : String
  nonempty : text ≠ ""
  allowed : ∀ c ∈ text.toList, isIdentifierChar c

-- An identifier of a prerelease is a number, or has something else than digits.
inductive PrereleaseIdentifier
  | numeric (n : Nat)
  | alphanumeric (identifier : Identifier) (h : ∃ c ∈ identifier.text.toList, c.isDigit = false)

def PrereleaseIdentifier.text : PrereleaseIdentifier → String
  | .numeric n => toString n
  | .alphanumeric identifier _ => identifier.text

-- Numbers come first.
def PrereleaseIdentifier.rank : PrereleaseIdentifier → ℕ ⊕ₗ String
  | .numeric n => Sum.inlₗ n
  | .alphanumeric identifier _ => Sum.inrₗ identifier.text

end SemVer

structure SemVer where
  major : Nat
  minor : Nat
  patch : Nat
  prerelease : List SemVer.PrereleaseIdentifier
  build : List SemVer.Identifier

namespace SemVer

def release (v : SemVer) : String := toString v.major ++ "." ++ toString v.minor ++ "." ++ toString v.patch

def prereleaseText (v : SemVer) : String := ".".intercalate (v.prerelease.map PrereleaseIdentifier.text)

def buildText (v : SemVer) : String := ".".intercalate (v.build.map Identifier.text)

-- The build metadata with the sign before it
def metadata (v : SemVer) : String :=
  match v.build with
  | [] => ""
  | _ :: _ => "+" ++ v.buildText

def text (v : SemVer) : String :=
  match v.prerelease with
  | [] => v.release ++ v.metadata
  | _ :: _ => v.release ++ "-" ++ v.prereleaseText ++ v.metadata

-- A release comes after its prereleases, a list of identifiers after what it begins with.
def precedence (v : SemVer) : ℕ ×ₗ ℕ ×ₗ ℕ ×ₗ Bool ×ₗ List (ℕ ⊕ₗ String) :=
  toLex (v.major, toLex (v.minor, toLex (v.patch, toLex (decide (v.prerelease = []),
    v.prerelease.map PrereleaseIdentifier.rank))))

section Order

variable {α β γ : Type} [LT β] [LT γ]

-- The first two compare as the last two do.
def SameOrder (x y : β) (u v : γ) : Prop := (x < y ↔ u < v) ∧ (x = y ↔ u = v)

theorem sameOrder_lex [LinearOrder α] {a b : α} {x y : β} {u v : γ} :
    SameOrder (toLex (a, x)) (toLex (b, y)) (toLex (a, u)) (toLex (b, v)) ↔
      (a = b → SameOrder x y u v) := by
  simp only [SameOrder, Prod.Lex.toLex_lt_toLex, toLex_inj, Prod.mk.injEq]
  by_cases h : a = b
  · simp [h]
  · simp [h]

theorem sameOrder_cons [LinearOrder α] {a : α} {x y : List α} {u v : γ} :
    SameOrder (a :: x) (a :: y) u v ↔ SameOrder x y u v := by
  simp [SameOrder]

theorem sameOrder_cons_right [LinearOrder α] {a : α} {x y : β} {u v : List α} :
    SameOrder x y (a :: u) (a :: v) ↔ SameOrder x y u v := by
  simp [SameOrder]

theorem sameOrder_append [LinearOrder α] {l x y : List α} {u v : γ} :
    SameOrder (l ++ x) (l ++ y) u v ↔ SameOrder x y u v := by
  induction l with
  | nil => rfl
  | cons a l ih => rw [List.cons_append, List.cons_append, sameOrder_cons, ih]

theorem sameOrder_of_lt {β γ : Type} [Preorder β] [Preorder γ] {x y : β} {u v : γ} (h : u < v) :
    SameOrder x y u v ↔ x < y :=
  ⟨fun hsame => hsame.1.mpr h, fun hless => ⟨iff_of_true hless h, iff_of_false hless.ne h.ne⟩⟩

theorem sameOrder_of_gt {β γ : Type} [LinearOrder β] [Preorder γ] {x y : β} {u v : γ} (h : v < u) :
    SameOrder x y u v ↔ y < x := by
  refine ⟨fun hsame => ?_, fun hless => ⟨iff_of_false hless.asymm h.asymm, iff_of_false hless.ne' h.ne'⟩⟩
  have hnot : ¬x < y := fun hless => h.asymm (hsame.1.mp hless)
  exact lt_of_le_of_ne (not_lt.mp hnot) fun he => h.ne' (hsame.2.mp he.symm)

theorem sameOrder_of_eq {β γ : Type} [Preorder β] [Preorder γ] {x y : β} {u : γ} :
    SameOrder x y u u ↔ x = y :=
  ⟨fun hsame => hsame.2.mpr rfl, fun he => ⟨iff_of_false he.not_lt (lt_irrefl u), iff_of_true he rfl⟩⟩

theorem sameOrder_toList {γ : Type} [LT γ] {x y : String} {u v : γ} :
    SameOrder x.toList y.toList u v ↔ SameOrder x y u v := by
  rw [SameOrder, SameOrder, String.lt_iff_toList_lt, String.toList_inj]

end Order

section Texts

variable {c d : Char} {l m s t : List Char}

theorem toNat_bounds (h : isIdentifierChar c) : c = '-' ∨ 48 ≤ c.toNat ∧ c.toNat ≤ 122 := by
  rcases Bool.or_eq_true_iff.mp h with h | h
  · right
    rcases Bool.or_eq_true_iff.mp h with hletter | hdigit
    · rcases Bool.or_eq_true_iff.mp hletter with hupper | hlower
      · have hbounds : 65 ≤ c.toNat ∧ c.toNat ≤ 90 := of_decide_eq_true hupper
        omega
      · obtain ⟨hlow, hhigh⟩ := Bool.and_eq_true_iff.mp hlower
        have hbounds : 97 ≤ c.toNat ∧ c.toNat ≤ 122 :=
          ⟨of_decide_eq_true hlow, of_decide_eq_true hhigh⟩
        omega
    · have hbounds : 48 ≤ c.toNat ∧ c.toNat ≤ 57 := Char.isDigit_iff_toNat.mp hdigit
      omega
  · exact .inl (of_decide_eq_true h)

theorem isspace_identifierChar (h : isIdentifierChar c) : Text.isspace c = false := by
  rcases toNat_bounds h with rfl | h
  · decide
  · simp only [Text.isspace, Text.spaces, List.contains_eq_mem, List.mem_cons, List.not_mem_nil, or_false,
      decide_eq_false_iff_not]
    omega

theorem lt_of_toNat (h : c.toNat < d.toNat) : c < d := Char.lt_def.mpr (UInt32.lt_iff_toNat_lt.mpr h)

theorem plus_lt (h : isIdentifierChar c) : '+' < c := by
  rcases toNat_bounds h with rfl | h
  · decide
  · exact lt_of_toNat (Nat.lt_of_lt_of_le (by decide) h.1)

-- Only the hyphen comes before the dot.
theorem dot_lt_iff (h : isIdentifierChar c) : '.' < c ↔ c ≠ '-' := by
  rcases toNat_bounds h with rfl | h
  · decide
  · have hdot : '.' < c := lt_of_toNat (Nat.lt_of_lt_of_le (by decide) h.1)
    exact ⟨fun _ he => absurd hdot (he ▸ by decide), fun _ => hdot⟩

theorem lt_dot_iff (h : isIdentifierChar c) : c < '.' ↔ c = '-' := by
  have hne : c ≠ '.' := by
    rintro rfl
    exact absurd h (by decide)
  rw [← not_le, ← not_iff_comm, ← ne_eq, ← dot_lt_iff h]
  exact ⟨le_of_lt, fun hle => lt_of_le_of_ne hle hne.symm⟩

-- What may follow an identifier
inductive Ends : List Char → Prop
  | nothing : Ends []
  | dot (rest : List Char) : Ends ('.' :: rest)
  | plus (rest : List Char) : Ends ('+' :: rest)

-- Texts that differ are in order with what follows them, unless one has a dot after it and begins
-- the other up to a hyphen.
theorem append_lt_append_iff (hl : ∀ c ∈ l, isIdentifierChar c) (hm : ∀ c ∈ m, isIdentifierChar c)
    (hne : l ≠ m) (hs : Ends s) (ht : Ends t) : l ++ s < m ++ t ↔
      l < m ∧ ¬(s.head? = some '.' ∧ l ++ ['-'] <+: m) ∨ t.head? = some '.' ∧ m ++ ['-'] <+: l := by
  induction l generalizing m with
  | nil =>
      cases m with
      | nil => exact absurd rfl hne
      | cons d m =>
          have hd := hm d List.mem_cons_self
          cases hs with
          | nothing => simp
          | dot rest =>
              have hdot : d ≠ '.' := by
                rintro rfl
                exact absurd hd (by decide)
              simp [List.cons_lt_cons_iff, dot_lt_iff hd, Ne.symm hdot, ne_comm]
          | plus rest => simp [List.cons_lt_cons_iff, plus_lt hd]
  | cons c l ih =>
      cases m with
      | nil =>
          have hc := hl c List.mem_cons_self
          cases ht with
          | nothing => simp
          | dot rest =>
              have hdot : c ≠ '.' := by
                rintro rfl
                exact absurd hc (by decide)
              simpa [List.cons_lt_cons_iff, lt_dot_iff hc, hdot] using eq_comm
          | plus rest =>
              have hplus := plus_lt hc
              simp [List.cons_lt_cons_iff, hplus.ne', hplus.asymm]
      | cons d m =>
          by_cases he : c = d
          · subst he
            have hrest := ih (fun c hc => hl c (List.mem_cons_of_mem _ hc))
              (fun c hc => hm c (List.mem_cons_of_mem _ hc)) fun he => hne (congrArg _ he)
            simpa [List.cons_lt_cons_iff] using hrest
          · simp [List.cons_lt_cons_iff, he, Ne.symm he]

theorem eq_of_append_eq (hl : ∀ c ∈ l, isIdentifierChar c) (hm : ∀ c ∈ m, isIdentifierChar c)
    (hs : Ends s) (ht : Ends t) (h : l ++ s = m ++ t) : l = m := by
  have hcut (s : List Char) (hs : Ends s) : s.takeWhile isIdentifierChar = [] := by
    cases hs with
    | nothing => rfl
    | dot rest => rfl
    | plus rest => rfl
  have hwhole := congrArg (List.takeWhile isIdentifierChar) h
  rwa [List.takeWhile_append_of_pos hl, List.takeWhile_append_of_pos hm, hcut s hs, hcut t ht,
    List.append_nil, List.append_nil] at hwhole

end Texts

section Identifiers

variable {x y : PrereleaseIdentifier} {xs ys : List PrereleaseIdentifier}

theorem isDigit_of_mem_toString {n : Nat} {c : Char} (h : c ∈ (toString n).toList) : c.isDigit := by
  rw [Nat.toString_eq_ofList_toDigits, String.toList_ofList] at h
  exact Nat.isDigit_of_mem_toDigits (by decide) (by decide) h

theorem PrereleaseIdentifier.allowed (x : PrereleaseIdentifier) :
    ∀ c ∈ x.text.toList, isIdentifierChar c := by
  cases x with
  | numeric n =>
      intro c hc
      rw [isIdentifierChar, Char.isAlphanum, isDigit_of_mem_toString hc, Bool.or_true, Bool.true_or]
  | alphanumeric identifier h => exact identifier.allowed

theorem toString_injective {m n : Nat} (h : toString m = toString n) : m = n := by
  rw [Nat.toString_eq_ofList_toDigits, Nat.toString_eq_ofList_toDigits] at h
  have hvalue := congrArg (Nat.ofDigitChars 10 · 0) (String.ofList_injective h)
  simpa only [Nat.ofDigitChars_ten_toDigits] using hvalue

theorem PrereleaseIdentifier.text_ne (x : PrereleaseIdentifier) : x.text ≠ "" := by
  cases x with
  | numeric n =>
      intro hempty
      have hlist := congrArg String.toList (Nat.toString_eq_ofList_toDigits.symm.trans hempty)
      rw [String.toList_ofList] at hlist
      exact Nat.toDigits_ne_nil hlist
  | alphanumeric identifier h => exact identifier.nonempty

-- Only a number has nothing but digits.
theorem PrereleaseIdentifier.exists_numeric (h : ∀ c ∈ x.text.toList, c.isDigit) :
    ∃ n, x = .numeric n := by
  cases x with
  | numeric n => exact ⟨n, rfl⟩
  | alphanumeric identifier hword =>
      obtain ⟨c, hc, hnot⟩ := hword
      rw [h c hc] at hnot
      cases hnot

theorem PrereleaseIdentifier.text_injective (h : x.text = y.text) : x = y := by
  cases x with
  | numeric m =>
      obtain ⟨n, rfl⟩ : ∃ n, y = .numeric n :=
        exists_numeric fun c hc => isDigit_of_mem_toString (h ▸ hc)
      rw [toString_injective h]
  | alphanumeric identifier hword =>
      cases y with
      | numeric n =>
          obtain ⟨m, hm⟩ : ∃ m, PrereleaseIdentifier.alphanumeric identifier hword = .numeric m :=
            exists_numeric fun c hc => isDigit_of_mem_toString (h ▸ hc)
          cases hm
      | alphanumeric other hother =>
          obtain ⟨text, _, _⟩ := identifier
          obtain ⟨text', _, _⟩ := other
          obtain rfl : text = text' := h
          rfl

theorem PrereleaseIdentifier.rank_inj : x.rank = y.rank ↔ x = y := by
  refine ⟨fun h => ?_, fun h => h ▸ rfl⟩
  cases x with
  | numeric m =>
      cases y with
      | numeric n => rw [Sum.inl.inj h]
      | alphanumeric other hother => cases h
  | alphanumeric identifier hword =>
      cases y with
      | numeric n => cases h
      | alphanumeric other hother => exact text_injective (Sum.inr.inj h)

-- An identifier that goes on after a hyphen is no number.
theorem PrereleaseIdentifier.lt_of_begins (h : x.text.toList ++ ['-'] <+: y.text.toList) :
    x.text < y.text ∧ x.rank < y.rank := by
  have hless : x.text < y.text := by
    obtain ⟨rest, hrest⟩ := h
    have hmore : x.text.toList ++ [] < x.text.toList ++ '-' :: rest :=
      List.append_left_lt (List.nil_lt_cons _ _)
    rw [String.lt_iff_toList_lt, ← hrest, List.append_assoc]
    rwa [List.append_nil] at hmore
  refine ⟨hless, ?_⟩
  cases y with
  | numeric n =>
      have hmem := List.mem_append_right x.text.toList (List.mem_singleton_self '-')
      have hhyphen := isDigit_of_mem_toString (h.subset hmem)
      exact absurd hhyphen (by decide)
  | alphanumeric other hother =>
      cases x with
      | numeric m => exact Sum.Lex.inl_lt_inr m other.text
      | alphanumeric identifier hword => exact Sum.Lex.inr_lt_inr_iff.mpr hless

-- The texts are in order, and neither, with an identifier after it, begins the other up to a hyphen.
def TextsAgree (x : PrereleaseIdentifier) (xmore : Prop) (y : PrereleaseIdentifier) (ymore : Prop) : Prop :=
  (x.text < y.text ↔ x.rank < y.rank) ∧
  ¬(xmore ∧ x.text.toList ++ ['-'] <+: y.text.toList) ∧
  ¬(ymore ∧ y.text.toList ++ ['-'] <+: x.text.toList)

-- The first identifiers that differ have texts that agree. Where all are the same, the builds are.
def ListsAgree (sameBuild : Prop) : List PrereleaseIdentifier → List PrereleaseIdentifier → Prop
  | [], [] => sameBuild
  | [], _ :: _ | _ :: _, [] => True
  | x :: xs, y :: ys =>
      (x = y → ListsAgree sameBuild xs ys) ∧ (x ≠ y → TextsAgree x (xs ≠ []) y (ys ≠ []))

-- The identifiers of a list, each with a dot before it
def tailText (xs : List PrereleaseIdentifier) : List Char := xs.flatMap fun x => '.' :: x.text.toList

variable {s t : List Char}

theorem sameOrder_texts (hne : x ≠ y) (hs : Ends s) (ht : Ends t) {us vs : List (ℕ ⊕ₗ String)} :
    SameOrder (x.text.toList ++ s) (y.text.toList ++ t) (x.rank :: us) (y.rank :: vs) ↔
      TextsAgree x (s.head? = some '.') y (t.head? = some '.') := by
  have htexts : x.text.toList ≠ y.text.toList := fun he =>
    hne (PrereleaseIdentifier.text_injective (String.toList_injective he))
  have happend : x.text.toList ++ s ≠ y.text.toList ++ t := fun he =>
    htexts (eq_of_append_eq x.allowed y.allowed hs ht he)
  have hrank : x.rank ≠ y.rank := fun he => hne (PrereleaseIdentifier.rank_inj.mp he)
  have hlist : x.rank :: us < y.rank :: vs ↔ x.rank < y.rank := by
    simp [List.cons_lt_cons_iff, hrank]
  have hxy := @PrereleaseIdentifier.lt_of_begins x y
  have hyx := @PrereleaseIdentifier.lt_of_begins y x
  unfold SameOrder TextsAgree
  rw [append_lt_append_iff x.allowed y.allowed htexts hs ht, hlist, String.lt_iff_toList_lt]
  rw [String.lt_iff_toList_lt] at hxy hyx
  have hlists : x.rank :: us ≠ y.rank :: vs := fun he => hrank (List.cons.inj he).1
  have hnot (h : y.text.toList ++ ['-'] <+: x.text.toList) :
      ¬x.text.toList < y.text.toList ∧ ¬x.rank < y.rank := (hyx h).imp lt_asymm lt_asymm
  simp only [happend, hlists, iff_self, and_true]
  by_cases hx : s.head? = some '.' ∧ x.text.toList ++ ['-'] <+: y.text.toList
  · have hy : ¬(t.head? = some '.' ∧ y.text.toList ++ ['-'] <+: x.text.toList) :=
      fun hy => (hnot hy.2).1 (hxy hx.2).1
    simp only [hx, hy, (hxy hx.2).2, and_self, not_true_eq_false, and_false, or_false, false_and, iff_true]
  by_cases hy : t.head? = some '.' ∧ y.text.toList ++ ['-'] <+: x.text.toList
  · simp only [hy, (hnot hy.2).2, and_self, or_true, not_true_eq_false, and_false, iff_false]
  · simp only [hx, hy, not_false_eq_true, and_true, or_false]

@[simp]
theorem tailText_nil : tailText [] = [] := rfl

theorem tailText_cons (x : PrereleaseIdentifier) (xs : List PrereleaseIdentifier) (s : List Char) :
    tailText (x :: xs) ++ s = '.' :: (x.text.toList ++ (tailText xs ++ s)) := by
  simp [tailText]

theorem dot_intercalate (x : PrereleaseIdentifier) (xs : List PrereleaseIdentifier) :
    '.' :: (".".intercalate ((x :: xs).map PrereleaseIdentifier.text)).toList = tailText (x :: xs) := by
  induction xs generalizing x with
  | nil => simp [tailText]
  | cons y xs ih =>
      have hrest := ih y
      rw [List.map_cons] at hrest
      rw [List.map_cons, List.map_cons, String.intercalate_cons_cons, String.toList_append,
        String.toList_append]
      unfold tailText at hrest ⊢
      rw [List.flatMap_cons, ← hrest]
      simp

theorem ends_tailText (xs : List PrereleaseIdentifier) (hs : Ends s) : Ends (tailText xs ++ s) := by
  cases xs with
  | nil => exact hs
  | cons x xs => exact .dot _

-- What comes after a list has a sign before it that comes before the dot.
theorem sameOrder_tails (hs : s = [] ∨ s.head? = some '+') (ht : t = [] ∨ t.head? = some '+') :
    SameOrder (tailText xs ++ s) (tailText ys ++ t) (xs.map PrereleaseIdentifier.rank)
      (ys.map PrereleaseIdentifier.rank) ↔ ListsAgree (s = t) xs ys := by
  have hends (s : List Char) (hs : s = [] ∨ s.head? = some '+') : Ends s ∧ s.head? ≠ some '.' := by
    cases s with
    | nil => exact ⟨.nothing, by simp⟩
    | cons c rest =>
        obtain rfl : c = '+' := by simpa using hs
        exact ⟨.plus rest, by simp⟩
  have hbefore (s rest : List Char) (hs : s = [] ∨ s.head? = some '+') : s < '.' :: rest := by
    cases s with
    | nil => exact List.nil_lt_cons _ _
    | cons c more =>
        obtain rfl : c = '+' := by simpa using hs
        exact List.cons_lt_cons_iff.mpr (.inl (by decide))
  induction xs generalizing ys with
  | nil =>
      cases ys with
      | nil =>
          refine ⟨fun h => h.2.mpr rfl, fun h => ?_⟩
          have heq : s = t := h
          simp [SameOrder, heq]
      | cons y ys =>
          have hless : s < tailText (y :: ys) ++ t := by
            rw [tailText_cons]
            exact hbefore s _ hs
          exact iff_of_true ⟨by simpa using hless, by simpa using hless.ne⟩ trivial
  | cons x xs ih =>
      cases ys with
      | nil =>
          have hless : t < tailText (x :: xs) ++ s := by
            rw [tailText_cons]
            exact hbefore t _ ht
          exact iff_of_true ⟨by simpa using hless.le, by simpa using hless.ne'⟩ trivial
      | cons y ys =>
          rw [tailText_cons, tailText_cons, sameOrder_cons, List.map_cons, List.map_cons, ListsAgree]
          by_cases he : x = y
          · subst he
            rw [sameOrder_append, sameOrder_cons_right]
            refine ih.trans ?_
            simp
          · have hdot (zs : List PrereleaseIdentifier) (s : List Char) (hs : s = [] ∨ s.head? = some '+') :
                (tailText zs ++ s).head? = some '.' ↔ zs ≠ [] := by
              cases zs with
              | nil => simp [(hends s hs).2]
              | cons z zs => simp [tailText_cons]
            rw [sameOrder_texts he (ends_tailText xs (hends s hs).1) (ends_tailText ys (hends t ht).1)]
            simp only [hdot xs s hs, hdot ys t ht, he, IsEmpty.forall_iff, ne_eq, not_false_eq_true,
              forall_const, true_and]

end Identifiers

section Characters

variable {v : SemVer} {c : Char}

theorem mem_dotted {pieces : List String}
    (hallowed : ∀ piece ∈ pieces, ∀ c ∈ piece.toList, isIdentifierChar c)
    (h : c ∈ (".".intercalate pieces).toList) : isIdentifierChar c ∨ c = '.' := by
  rw [String.toList_intercalate] at h
  rcases Text.mem_intercalate h with hdot | ⟨piece, hp, hc⟩
  · exact .inr (by simpa using hdot)
  · obtain ⟨text, ht, rfl⟩ := List.mem_map.mp hp
    exact .inl (hallowed text ht c hc)

theorem mem_buildText (h : c ∈ v.buildText.toList) : isIdentifierChar c ∨ c = '.' := by
  refine mem_dotted (fun piece hp => ?_) h
  obtain ⟨identifier, -, rfl⟩ := List.mem_map.mp hp
  exact identifier.allowed

theorem mem_prereleaseText (h : c ∈ v.prereleaseText.toList) : isIdentifierChar c ∨ c = '.' := by
  refine mem_dotted (fun piece hp => ?_) h
  obtain ⟨identifier, -, rfl⟩ := List.mem_map.mp hp
  exact identifier.allowed

theorem toList_metadata (v : SemVer) :
    v.metadata.toList = [] ∧ v.buildText.toList = [] ∨ v.metadata.toList = '+' :: v.buildText.toList := by
  unfold metadata buildText
  cases v.build with
  | nil => exact .inl ⟨rfl, rfl⟩
  | cons identifier build => exact .inr (by simp)

theorem metadata_head (v : SemVer) : v.metadata.toList = [] ∨ v.metadata.toList.head? = some '+' := by
  rcases v.toList_metadata with ⟨h, -⟩ | h
  · exact .inl h
  · rw [h]
    exact .inr rfl

theorem mem_metadata (h : c ∈ v.metadata.toList) : isIdentifierChar c ∨ c = '.' ∨ c = '+' := by
  rcases v.toList_metadata with ⟨hempty, -⟩ | hcons
  · rw [hempty] at h
    cases h
  · rw [hcons] at h
    rcases List.mem_cons.mp h with rfl | h
    · exact .inr (.inr rfl)
    · exact (mem_buildText h).imp_right .inl

end Characters

end SemVer

end YasinCore.Library
