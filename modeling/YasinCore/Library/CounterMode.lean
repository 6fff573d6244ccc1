import YasinCore.Library.Base64
import Mathlib.Data.List.GetD
import Mathlib.Data.List.Range

namespace YasinCore.Library

abbrev Block (n : Nat) := { bytes : Bytes // bytes.length = n }

namespace CounterMode

variable {n : Nat} {block : Nat → Block n} {first second : Bytes}

-- The blocks of a counter, one after the other, without an end.
def streamByte (block : Nat → Block n) (i : Nat) : UInt8 := (block (i / n)).val.getD (i % n) 0

def stream (block : Nat → Block n) (length : Nat) : Bytes := (List.range length).map (streamByte block)

def xor (data stream : Bytes) : Bytes := List.zipWith (fun b k => b ^^^ k) data stream

theorem length_stream (length : Nat) : (stream block length).length = length := by
  unfold stream
  rw [List.length_map, List.length_range]

-- The stream goes on with the next block.
theorem stream_block (hn : 0 < n) (counter : Nat) :
    stream block (n * counter) ++ (block counter).val = stream block (n * (counter + 1)) := by
  have hblock : (List.range n).map (fun i => streamByte block (n * counter + i)) =
      (block counter).val := by
    refine List.ext_getElem ?_ fun i hi hi' => ?_
    · rw [List.length_map, List.length_range, (block counter).property]
    · rw [List.length_map, List.length_range] at hi
      rw [List.getElem_map, List.getElem_range, streamByte, Nat.mul_add_div hn, Nat.div_eq_of_lt hi,
        Nat.add_zero, Nat.mul_add_mod, Nat.mod_eq_of_lt hi, List.getD_eq_getElem _ _ hi']
  unfold stream
  rw [Nat.mul_add, Nat.mul_one, List.range_add, List.map_append, List.map_map]
  exact congrArg _ hblock.symm

-- A shorter stream is the beginning of a longer one.
theorem take_stream {length longer : Nat} (h : length ≤ longer) :
    (stream block longer).take length = stream block length := by
  unfold stream
  rw [← List.map_take, List.take_range, Nat.min_eq_left h]

theorem length_xor (h : first.length = second.length) : (xor first second).length = first.length := by
  unfold xor
  rw [List.length_zipWith, h, Nat.min_self]

-- The stream cancels itself.
theorem xor_xor (h : first.length = second.length) : xor (xor first second) second = first := by
  unfold xor
  induction first generalizing second with
  | nil => rfl
  | cons b first ih =>
      cases second with
      | nil => cases h
      | cons k second =>
          have hcancel : b ^^^ k ^^^ k = b := by
            rw [UInt8.xor_assoc, UInt8.xor_self, UInt8.xor_zero]
          rw [List.zipWith_cons_cons, List.zipWith_cons_cons, hcancel, ih (Nat.succ.inj h)]

end CounterMode

end YasinCore.Library
