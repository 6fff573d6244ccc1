import YasinCore.Library.Json.RoundTrip

namespace YasinCore.Library.Json

variable {φ : Type}

mutual

-- A document on one line
def dumps (floats : Floats φ) : Json φ → Except String (List Char)
  | null => .ok ['n', 'u', 'l', 'l']
  | bool true => .ok ['t', 'r', 'u', 'e']
  | bool false => .ok ['f', 'a', 'l', 's', 'e']
  | int n => .ok (intText n)
  | float x => .ok (floats.text x)
  | str s => .ok (strText s)
  | list items => return '[' :: (← dumpsItems floats items) ++ [']']
  | dict entries => return '{' :: (← dumpsEntries floats entries) ++ ['}']
  | object refusal => .error refusal

def dumpsItems (floats : Floats φ) : List (Json φ) → Except String (List Char)
  | [] => .ok []
  | [item] => dumps floats item
  | item :: items => return (← dumps floats item) ++ [',', ' '] ++ (← dumpsItems floats items)

def dumpsEntries (floats : Floats φ) : List (Str × Json φ) → Except String (List Char)
  | [] => .ok []
  | [(key, value)] => return strText key ++ [':', ' '] ++ (← dumps floats value)
  | (key, value) :: entries =>
      return strText key ++ [':', ' '] ++ (← dumps floats value) ++ [',', ' '] ++
        (← dumpsEntries floats entries)

end

section Serializable

variable (floats : Floats φ)

mutual

-- Nothing that can be serialized is refused.
theorem dumps_serializable : (v : Json φ) → v.Serializable → ∃ t, dumps floats v = .ok t
  | null, _ | bool true, _ | bool false, _ | int _, _ | float _, _ | str _, _ => ⟨_, by rw [dumps]⟩
  | list items, h => by
      rw [Serializable] at h
      obtain ⟨t, ht⟩ := dumpsItems_serializable items h
      exact ⟨_, by rw [dumps, ht]; rfl⟩
  | dict entries, h => by
      rw [Serializable] at h
      obtain ⟨t, ht⟩ := dumpsEntries_serializable entries h
      exact ⟨_, by rw [dumps, ht]; rfl⟩
  | object _, h => by simp [Serializable] at h

theorem dumpsItems_serializable : (items : List (Json φ)) → SerializableItems items →
    ∃ t, dumpsItems floats items = .ok t
  | [], _ => ⟨_, by rw [dumpsItems]⟩
  | [item], h => by
      rw [SerializableItems] at h
      rw [dumpsItems]
      exact dumps_serializable item h.1
  | item :: next :: items, h => by
      rw [SerializableItems] at h
      obtain ⟨t, ht⟩ := dumps_serializable item h.1
      obtain ⟨u, hu⟩ := dumpsItems_serializable (next :: items) h.2
      exact ⟨_, by rw [dumpsItems, ht, hu]; exacts [rfl, List.cons_ne_nil _ _]⟩

theorem dumpsEntries_serializable : (entries : List (Str × Json φ)) → SerializableEntries entries →
    ∃ t, dumpsEntries floats entries = .ok t
  | [], _ => ⟨_, by rw [dumpsEntries]⟩
  | [(key, value)], h => by
      rw [SerializableEntries] at h
      obtain ⟨t, ht⟩ := dumps_serializable value h.1
      exact ⟨_, by rw [dumpsEntries, ht]; rfl⟩
  | (key, value) :: next :: entries, h => by
      rw [SerializableEntries] at h
      obtain ⟨t, ht⟩ := dumps_serializable value h.1
      obtain ⟨u, hu⟩ := dumpsEntries_serializable (next :: entries) h.2
      exact ⟨_, by rw [dumpsEntries, ht, hu]; exacts [rfl, List.cons_ne_nil _ _]⟩

end

end Serializable

section Decode

variable {floats : Floats φ} {finite : φ → Prop} {t : List Char}

theorem bind_eq_ok {ε α β : Type} {first : Except ε α} {next : α → Except ε β} {b : β} :
    (first >>= next) = .ok b ↔ ∃ a, first = .ok a ∧ next a = .ok b := by
  cases first with
  | error e => simp [bind, Except.bind]
  | ok a => exact ⟨fun h => ⟨a, rfl, h⟩, fun ⟨_, ha, h⟩ => Except.ok.inj ha ▸ h⟩

mutual

theorem dumps_layout : (v : Json φ) → ∀ {t}, dumps floats v = .ok t → Layout floats v t
  | null, t, h => by
      obtain rfl := Except.ok.inj h
      exact .null
  | bool true, t, h => by
      obtain rfl := Except.ok.inj h
      exact .boolTrue
  | bool false, t, h => by
      obtain rfl := Except.ok.inj h
      exact .boolFalse
  | int n, t, h => by
      obtain rfl := Except.ok.inj h
      exact .int n
  | float x, t, h => by
      obtain rfl := Except.ok.inj h
      exact .float x
  | str s, t, h => by
      obtain rfl := Except.ok.inj h
      exact .str s
  | list [], t, h => by
      obtain rfl := Except.ok.inj h
      exact .listNil blank_nil
  | list (item :: items), t, h => by
      rw [dumps] at h
      obtain ⟨u, hu, h⟩ := bind_eq_ok.mp h
      obtain rfl := Except.ok.inj h
      have hlist := Layout.list blank_nil (dumpsItems_layout (item :: items) (List.cons_ne_nil _ _) hu)
      exact hlist
  | dict [], t, h => by
      obtain rfl := Except.ok.inj h
      exact .dictNil blank_nil
  | dict (entry :: entries), t, h => by
      rw [dumps] at h
      obtain ⟨u, hu, h⟩ := bind_eq_ok.mp h
      obtain rfl := Except.ok.inj h
      have hdict := Layout.dict blank_nil (dumpsEntries_layout (entry :: entries) (List.cons_ne_nil _ _) hu)
      exact hdict
  | object _, t, h => by cases h

theorem dumpsItems_layout : (items : List (Json φ)) → items ≠ [] → ∀ {t},
    dumpsItems floats items = .ok t → LayoutItems floats items (t ++ [']'])
  | [], hne, _, _ => absurd rfl hne
  | [item], _, t, h => by
      rw [dumpsItems] at h
      exact .last (dumps_layout item h) blank_nil
  | item :: next :: items, _, t, h => by
      rw [dumpsItems] at h
      · obtain ⟨u, hu, h⟩ := bind_eq_ok.mp h
        obtain ⟨w, hw, h⟩ := bind_eq_ok.mp h
        obtain rfl := Except.ok.inj h
        have hitems := dumpsItems_layout (next :: items) (List.cons_ne_nil _ _) hw
        rw [List.append_assoc, List.append_assoc]
        exact .more (dumps_layout item hu) blank_nil blank_space hitems
      · simp

theorem dumpsEntries_layout : (entries : List (Str × Json φ)) → entries ≠ [] → ∀ {t},
    dumpsEntries floats entries = .ok t → LayoutEntries floats entries (t ++ ['}'])
  | [], hne, _, _ => absurd rfl hne
  | [(key, value)], _, t, h => by
      rw [dumpsEntries] at h
      obtain ⟨u, hu, h⟩ := bind_eq_ok.mp h
      obtain rfl := Except.ok.inj h
      rw [List.append_assoc, List.append_assoc]
      exact .last blank_nil blank_space (dumps_layout value hu) blank_nil
  | (key, value) :: next :: entries, _, t, h => by
      rw [dumpsEntries] at h
      · obtain ⟨u, hu, h⟩ := bind_eq_ok.mp h
        obtain ⟨w, hw, h⟩ := bind_eq_ok.mp h
        obtain rfl := Except.ok.inj h
        have hentries := dumpsEntries_layout (next :: entries) (List.cons_ne_nil _ _) hw
        rw [List.append_assoc, List.append_assoc, List.append_assoc, List.append_assoc]
        exact .more blank_nil blank_space (dumps_layout value hu) blank_nil blank_space hentries
      · simp

end

theorem decode_dumps (hl : LawfulFloats floats finite) {v : Json φ} (hv : v.Representable finite)
    (h : dumps floats v = .ok t) : decode floats t = some v := by
  have hread := decode_layout hl (dumps_layout v h) hv blank_nil blank_nil
  rwa [List.nil_append, List.append_nil] at hread

end Decode

-- Documents without floating point numbers
def noFloats : Floats Unit := ⟨fun _ => [], fun _ => ()⟩

theorem noFloats_lawful : LawfulFloats noFloats fun _ => False := ⟨fun _ h => h.elim, fun _ h => h.elim⟩

end YasinCore.Library.Json
