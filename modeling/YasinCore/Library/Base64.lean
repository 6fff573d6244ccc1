import Mathlib.Data.List.Basic

namespace YasinCore.Library

abbrev Bytes := List UInt8

namespace Base64

-- The padding character.
def pad : UInt8 := 0x3d

-- The digits are A to Z, a to z, 0 to 9, + and /.
def digit (n : Nat) : UInt8 :=
  if n < 26 then .ofNat (0x41 + n)
  else if n < 52 then .ofNat (0x61 + (n - 26))
  else if n < 62 then .ofNat (0x30 + (n - 52))
  else if n = 62 then 0x2b
  else 0x2f

def digit? (c : UInt8) : Option Nat :=
  if 0x41 ≤ c.toNat ∧ c.toNat ≤ 0x5a then some (c.toNat - 0x41)
  else if 0x61 ≤ c.toNat ∧ c.toNat ≤ 0x7a then some (c.toNat - 0x61 + 26)
  else if 0x30 ≤ c.toNat ∧ c.toNat ≤ 0x39 then some (c.toNat - 0x30 + 52)
  else if c = 0x2b then some 62
  else if c = 0x2f then some 63
  else none

-- Three bytes are written with four digits.
def encode : Bytes → Bytes
  | [] => []
  | [a] => [digit (a.toNat / 4), digit (a.toNat % 4 * 16), pad, pad]
  | [a, b] =>
      [digit (a.toNat / 4), digit (a.toNat % 4 * 16 + b.toNat / 16), digit (b.toNat % 16 * 4), pad]
  | a :: b :: c :: rest =>
      digit (a.toNat / 4) :: digit (a.toNat % 4 * 16 + b.toNat / 16) ::
        digit (b.toNat % 16 * 4 + c.toNat / 64) :: digit (c.toNat % 64) :: encode rest

-- The bits that are left of one digit and the first ones of the next, by the place in the group.
def joined (place left digit : Nat) : UInt8 :=
  match place with
  | 1 => .ofNat (left * 4 + digit / 16)
  | 2 => .ofNat (left * 16 + digit / 4)
  | _ => .ofNat (left * 64 + digit)

def leftOf (place digit : Nat) : Nat :=
  match place with
  | 0 => digit
  | 1 => digit % 16
  | 2 => digit % 4
  | _ => 0

-- Reads on at a place within a group of four digits, after some padding. Other characters are passed
-- by, and enough padding is the end.
def decodeFrom (place left pads : Nat) : Bytes → Option Bytes
  | [] => if place = 0 then some [] else none
  | c :: rest =>
      if c = pad then
        if 2 ≤ place then
          if 4 ≤ place + (pads + 1) then some [] else decodeFrom place left (pads + 1) rest
        else decodeFrom place left pads rest
      else
        match digit? c with
        | none => decodeFrom place left pads rest
        | some n =>
            if place = 0 then decodeFrom 1 (leftOf 0 n) 0 rest
            else (decodeFrom ((place + 1) % 4) (leftOf place n) 0 rest).map (joined place left n :: ·)

def decode (text : Bytes) : Option Bytes := decodeFrom 0 0 0 text

section Digits

variable {n : Nat}

theorem digit?_digit (h : n < 64) : digit? (digit n) = some n := by
  have hall : ∀ n < 64, digit? (digit n) = some n := by decide
  exact hall n h

theorem digit_ne_pad (h : n < 64) : digit n ≠ pad := by
  have hall : ∀ n < 64, digit n ≠ pad := by decide
  exact hall n h

theorem decodeFrom_digit (h : n < 64) (left pads : Nat) (rest : Bytes) :
    decodeFrom 0 left pads (digit n :: rest) = decodeFrom 1 n 0 rest := by
  rw [decodeFrom, if_neg (digit_ne_pad h), digit?_digit h]
  rfl

theorem decodeFrom_next {place : Nat} (hp : place ≠ 0) (h : n < 64) (left pads : Nat) (rest : Bytes) :
    decodeFrom place left pads (digit n :: rest) =
      (decodeFrom ((place + 1) % 4) (leftOf place n) 0 rest).map (joined place left n :: ·) := by
  rw [decodeFrom, if_neg (digit_ne_pad h), digit?_digit h]
  exact if_neg hp

end Digits

section Groups

variable {a b c : UInt8} {n : Nat}

theorem joined_first (h : n / 16 = a.toNat % 4) : joined 1 (a.toNat / 4) n = a := by
  have hsum : a.toNat / 4 * 4 + n / 16 = a.toNat := by omega
  change UInt8.ofNat (a.toNat / 4 * 4 + n / 16) = a
  rw [hsum, UInt8.ofNat_toNat]

theorem joined_second {first : Nat} (hfirst : first % 16 = b.toNat / 16) (h : n / 4 = b.toNat % 16) :
    joined 2 (leftOf 1 first) n = b := by
  have hsum : first % 16 * 16 + n / 4 = b.toNat := by omega
  change UInt8.ofNat (first % 16 * 16 + n / 4) = b
  rw [hsum, UInt8.ofNat_toNat]

theorem joined_third {second : Nat} (h : second % 4 = c.toNat / 64) :
    joined 3 (leftOf 2 second) (c.toNat % 64) = c := by
  have hsum : second % 4 * 64 + c.toNat % 64 = c.toNat := by omega
  change UInt8.ofNat (second % 4 * 64 + c.toNat % 64) = c
  rw [hsum, UInt8.ofNat_toNat]

end Groups

-- What comes back is what was written.
theorem decode_encode (bytes : Bytes) : decode (encode bytes) = some bytes := by
  unfold decode
  induction bytes using encode.induct with
  | case1 => rfl
  | case2 a =>
      have ha := a.toNat_lt
      rw [encode, decodeFrom_digit (by omega), decodeFrom_next (by decide) (by omega),
        joined_first (by omega)]
      rfl
  | case3 a b =>
      have ha := a.toNat_lt
      have hb := b.toNat_lt
      rw [encode, decodeFrom_digit (by omega), decodeFrom_next (by decide) (by omega),
        joined_first (by omega), decodeFrom_next (by decide) (by omega),
        joined_second (b := b) (by omega) (by omega)]
      rfl
  | case4 a b c rest ih =>
      have ha := a.toNat_lt
      have hb := b.toNat_lt
      have hc := c.toNat_lt
      rw [encode, decodeFrom_digit (by omega), decodeFrom_next (by decide) (by omega),
        joined_first (by omega), decodeFrom_next (by decide) (by omega),
        joined_second (b := b) (by omega) (by omega),
        decodeFrom_next (by decide) (by omega), joined_third (c := c) (by omega)]
      change (((decodeFrom 0 0 0 (encode rest)).map _).map _).map _ = _
      rw [ih]
      rfl

theorem digit_ascii (n : Nat) : (digit n).toNat < 128 := by
  unfold digit
  split_ifs
  · rw [UInt8.toNat_ofNat']
    omega
  · rw [UInt8.toNat_ofNat']
    omega
  · rw [UInt8.toNat_ofNat']
    omega
  · decide
  · decide

-- What is written is text in ASCII.
theorem encode_ascii (bytes : Bytes) : ∀ c ∈ encode bytes, c.toNat < 128 := by
  have hpad : pad.toNat < 128 := by decide
  induction bytes using encode.induct with
  | case1 => exact nofun
  | case2 a => simp [encode, digit_ascii, hpad]
  | case3 a b => simp [encode, digit_ascii, hpad]
  | case4 a b c rest ih => simpa [encode, digit_ascii] using ih

end Base64

end YasinCore.Library
