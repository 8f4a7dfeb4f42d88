import Mathlib.Data.BitVec

namespace Detours.Bytes

abbrev Byte := BitVec 8

/-- The low `count` bytes of a number, least significant byte first. -/
def littleEndian : Nat → Nat → List Byte
  | 0, _ => []
  | count + 1, value => BitVec.ofNat 8 value :: littleEndian count (value / 256)

def ofLittleEndian : List Byte → Nat
  | [] => 0
  | byte :: rest => byte.toNat + 256 * ofLittleEndian rest

variable {count value left right : Nat}

@[simp] theorem littleEndian_length (count value : Nat) :
    (littleEndian count value).length = count := by
  induction count generalizing value with
  | zero => rfl
  | succ count ih => simp only [littleEndian, List.length_cons, ih]

theorem ofLittleEndian_littleEndian :
    ofLittleEndian (littleEndian count value) = value % 256 ^ count := by
  induction count generalizing value with
  | zero => simp [littleEndian, ofLittleEndian, Nat.mod_one]
  | succ count ih =>
      have digit : (BitVec.ofNat 8 value).toNat = value % 256 := BitVec.toNat_ofNat value 8
      rw [littleEndian, ofLittleEndian, ih, digit, Nat.pow_succ', Nat.mod_mul]

theorem ofLittleEndian_append (front rest : List Byte) :
    ofLittleEndian (front ++ rest) = ofLittleEndian front + 256 ^ front.length * ofLittleEndian rest := by
  induction front with
  | nil => simp [ofLittleEndian]
  | cons byte front ih =>
      rw [List.cons_append, ofLittleEndian, ofLittleEndian, ih, List.length_cons, Nat.pow_succ',
        Nat.mul_add, Nat.mul_assoc, Nat.add_assoc]

theorem ofLittleEndian_lt (bytes : List Byte) : ofLittleEndian bytes < 256 ^ bytes.length := by
  induction bytes with
  | nil => simp [ofLittleEndian]
  | cons byte rest ih =>
      have digit : byte.toNat < 256 := byte.isLt
      rw [ofLittleEndian, List.length_cons, Nat.pow_succ']
      omega

theorem littleEndian_ofLittleEndian (bytes : List Byte) :
    littleEndian bytes.length (ofLittleEndian bytes) = bytes := by
  induction bytes with
  | nil => rfl
  | cons byte rest ih =>
      have digit : byte.toNat < 256 := byte.isLt
      have low : BitVec.ofNat 8 (byte.toNat + 256 * ofLittleEndian rest) = byte := by
        apply BitVec.eq_of_toNat_eq
        rw [BitVec.toNat_ofNat]
        omega
      have high : (byte.toNat + 256 * ofLittleEndian rest) / 256 = ofLittleEndian rest := by omega
      simp only [ofLittleEndian, List.length_cons, littleEndian, low, high, ih]

theorem ofLittleEndian_append_mod (front rest : List Byte) :
    ofLittleEndian (front ++ rest) % 256 ^ front.length = ofLittleEndian front := by
  rw [ofLittleEndian_append, Nat.add_mul_mod_self_left,
    Nat.mod_eq_of_lt (ofLittleEndian_lt front)]

theorem littleEndian_inj :
    littleEndian count left = littleEndian count right ↔
      left % 256 ^ count = right % 256 ^ count := by
  constructor
  · intro same
    have values := congrArg ofLittleEndian same
    rwa [ofLittleEndian_littleEndian, ofLittleEndian_littleEndian] at values
  · intro same
    have leftBytes := littleEndian_ofLittleEndian (littleEndian count left)
    have rightBytes := littleEndian_ofLittleEndian (littleEndian count right)
    rw [littleEndian_length, ofLittleEndian_littleEndian] at leftBytes rightBytes
    rw [← leftBytes, ← rightBytes, same]

end Detours.Bytes
