import Mathlib

set_option autoImplicit false

namespace MemoryImage

abbrev Bytes := List UInt8

/-- The `w` low bytes of a number, least significant first. -/
def toBytes : Nat → Nat → Bytes
  | 0, _ => []
  | w + 1, n => UInt8.ofNat n :: toBytes w (n / 256)

def ofBytes : Bytes → Nat
  | [] => 0
  | b :: bs => b.toNat + 256 * ofBytes bs

theorem length_toBytes (w : Nat) : ∀ n, (toBytes w n).length = w := by
  induction w with
  | zero => exact fun _ => rfl
  | succ w ih => exact fun n => congrArg (· + 1) (ih (n / 256))

theorem ofBytes_lt (bs : Bytes) : ofBytes bs < 256 ^ bs.length := by
  induction bs with
  | nil => decide
  | cons b bs ih =>
    have hb := b.toNat_lt
    rw [ofBytes, List.length_cons, pow_succ]
    omega

theorem ofBytes_toBytes (w : Nat) : ∀ n, n < 256 ^ w → ofBytes (toBytes w n) = n := by
  induction w with
  | zero =>
    intro n hn
    rw [pow_zero] at hn
    have hz : n = 0 := by omega
    rw [hz]
    rfl
  | succ w ih =>
    intro n hn
    rw [pow_succ] at hn
    have hb : (UInt8.ofNat n).toNat = n % 256 := UInt8.toNat_ofNat'
    rw [toBytes, ofBytes, ih _ (by omega), hb]
    omega

theorem toBytes_ofBytes (bs : Bytes) : toBytes bs.length (ofBytes bs) = bs := by
  induction bs with
  | nil => rfl
  | cons b bs ih =>
    have hb := b.toNat_lt
    have hhead : UInt8.ofNat (b.toNat + 256 * ofBytes bs) = b := by
      refine UInt8.toNat_inj.mp ?_
      rw [UInt8.toNat_ofNat']
      omega
    have htail : (b.toNat + 256 * ofBytes bs) / 256 = ofBytes bs := by omega
    rw [ofBytes, List.length_cons, toBytes, hhead, htail, ih]

/-- The byte images of a type. -/
structure Layout (α : Type) where
  size : Nat
  encode : α → Bytes
  decode : Bytes → α
  length_encode : ∀ a, (encode a).length = size
  decode_encode : ∀ a, decode (encode a) = a
  encode_decode : ∀ bs, bs.length = size → encode (decode bs) = bs

namespace Layout

variable {α β : Type}

/-- An integer type of `w` bytes. -/
def int (w : Nat) (toNat : α → Nat) (ofNat : Nat → α) (hlt : ∀ a, toNat a < 256 ^ w)
    (hofNat : ∀ a, ofNat (toNat a) = a) (htoNat : ∀ n, n < 256 ^ w → toNat (ofNat n) = n) :
    Layout α where
  size := w
  encode a := toBytes w (toNat a)
  decode bs := ofNat (ofBytes bs)
  length_encode a := length_toBytes w _
  decode_encode a := by rw [ofBytes_toBytes w _ (hlt a), hofNat]
  encode_decode bs h := by
    subst h
    rw [htoNat _ (ofBytes_lt bs), toBytes_ofBytes]

def u8 : Layout UInt8 :=
  int 1 UInt8.toNat UInt8.ofNat UInt8.toNat_lt (fun _ => UInt8.ofNat_toNat)
    fun _ h => UInt8.toNat_ofNat_of_lt' h

def u32 : Layout UInt32 :=
  int 4 UInt32.toNat UInt32.ofNat UInt32.toNat_lt (fun _ => UInt32.ofNat_toNat)
    fun _ h => UInt32.toNat_ofNat_of_lt' h

def u64 : Layout UInt64 :=
  int 8 UInt64.toNat UInt64.ofNat UInt64.toNat_lt (fun _ => UInt64.ofNat_toNat)
    fun _ h => UInt64.toNat_ofNat_of_lt' h

def prod (a : Layout α) (b : Layout β) : Layout (α × β) where
  size := a.size + b.size
  encode p := a.encode p.1 ++ b.encode p.2
  decode bs := (a.decode (bs.take a.size), b.decode (bs.drop a.size))
  length_encode p := by rw [List.length_append, a.length_encode, b.length_encode]
  decode_encode p := by
    have hlen := a.length_encode p.1
    rw [List.take_left' hlen, List.drop_left' hlen, a.decode_encode, b.decode_encode]
  encode_decode bs h := by
    rw [a.encode_decode _ (by rw [List.length_take]; omega),
      b.encode_decode _ (by rw [List.length_drop]; omega), List.take_append_drop]

def map (b : Layout β) (f : α → β) (g : β → α) (hgf : ∀ a, g (f a) = a) (hfg : ∀ b, f (g b) = b) :
    Layout α where
  size := b.size
  encode a := b.encode (f a)
  decode bs := g (b.decode bs)
  length_encode a := b.length_encode _
  decode_encode a := by rw [b.decode_encode, hgf]
  encode_decode bs h := by rw [hfg, b.encode_decode bs h]

def i64 : Layout Int64 := u64.map Int64.toUInt64 UInt64.toInt64 (fun _ => rfl) (fun _ => rfl)

def array (n : Nat) : Layout (Vector UInt8 n) where
  size := n
  encode v := v.toList
  decode bs := Vector.ofFn fun i => bs.getD i 0
  length_encode v := by simp
  decode_encode v := by
    ext i hi
    simp [List.getD_eq_getElem?_getD]
  encode_decode bs h := by
    subst h
    refine List.ext_getElem (by simp) fun i h₁ h₂ => ?_
    simp [List.getD_eq_getElem?_getD]

/-! Sequences of values. -/

def encodeAll (a : Layout α) (xs : List α) : Bytes := xs.flatMap a.encode

def decodeAll (a : Layout α) : Nat → Bytes → List α
  | 0, _ => []
  | n + 1, bs => a.decode (bs.take a.size) :: decodeAll a n (bs.drop a.size)

variable (a : Layout α)

theorem length_encodeAll (xs : List α) : (a.encodeAll xs).length = xs.length * a.size := by
  induction xs with
  | nil => simp [encodeAll]
  | cons x xs ih =>
    rw [encodeAll, List.flatMap_cons, List.length_append, a.length_encode, ← encodeAll, ih,
      List.length_cons, Nat.add_mul]
    omega

theorem length_decodeAll (n : Nat) : ∀ bs, (a.decodeAll n bs).length = n := by
  induction n with
  | zero => exact fun _ => rfl
  | succ n ih => exact fun bs => congrArg (· + 1) (ih _)

theorem decodeAll_encodeAll (xs : List α) : a.decodeAll xs.length (a.encodeAll xs) = xs := by
  induction xs with
  | nil => rfl
  | cons x xs ih =>
    have hlen := a.length_encode x
    rw [encodeAll, List.flatMap_cons, List.length_cons, decodeAll, List.take_left' hlen,
      List.drop_left' hlen, a.decode_encode, ← encodeAll, ih]

theorem encodeAll_decodeAll (n : Nat) : ∀ bs, bs.length = n * a.size →
    a.encodeAll (a.decodeAll n bs) = bs := by
  induction n with
  | zero =>
    intro bs h
    rw [Nat.zero_mul] at h
    exact (List.eq_nil_of_length_eq_zero h).symm ▸ rfl
  | succ n ih =>
    intro bs h
    rw [Nat.add_mul, Nat.one_mul] at h
    rw [decodeAll, encodeAll, List.flatMap_cons, ← encodeAll,
      a.encode_decode _ (by rw [List.length_take]; omega),
      ih _ (by rw [List.length_drop]; omega), List.take_append_drop]

theorem decodeAll_append (m n : Nat) : ∀ bs, m * a.size ≤ bs.length →
    a.decodeAll (m + n) bs =
      a.decodeAll m (bs.take (m * a.size)) ++ a.decodeAll n (bs.drop (m * a.size)) := by
  induction m with
  | zero => simp [decodeAll]
  | succ m ih =>
    intro bs h
    rw [Nat.add_mul, Nat.one_mul] at h
    have htake : (bs.take ((m + 1) * a.size)).take a.size = bs.take a.size := by
      rw [List.take_take, Nat.add_mul, Nat.one_mul, min_eq_left (by omega)]
    have hdrop : (bs.take ((m + 1) * a.size)).drop a.size =
        (bs.drop a.size).take (m * a.size) := by
      rw [List.drop_take, Nat.add_mul, Nat.one_mul, Nat.add_sub_cancel]
    have hrest : bs.drop ((m + 1) * a.size) = (bs.drop a.size).drop (m * a.size) := by
      rw [List.drop_drop, Nat.add_mul, Nat.one_mul, Nat.add_comm]
    rw [show m + 1 + n = (m + n) + 1 by omega, decodeAll, decodeAll, htake, hdrop, hrest,
      ih _ (by rw [List.length_drop]; omega), List.cons_append]

end Layout

end MemoryImage
