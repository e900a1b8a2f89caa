import Mathlib

/-!
# StitchEditor.Lib.Wire

Byte-level plumbing for canonical formats: fixed-width big-endian words and
*prefix-free* encoders, the encoders whose output can be cut off the front
of any longer byte string in one way only.

Prefix-freeness is what makes concatenated formats unambiguous, and it is
closed under the ways formats are built: pairing (`PrefixFree.pair`), a
tag that selects the layout (`PrefixFree.cons`), lists of a known length
(`PrefixFree.flatMap`) and lists behind a count word
(`PrefixFree.counted`).
-/

namespace Wire

/-! ## big-endian words -/

/-- The `w` low bytes of `n`, most significant first. -/
def putBE : Nat → Nat → List UInt8
  | 0, _ => []
  | w + 1, n => putBE w (n / 256) ++ [UInt8.ofNat n]

/-- The number a big-endian byte string spells. -/
def natBE (bs : List UInt8) : Nat := bs.foldl (fun n b => n * 256 + b.toNat) 0

@[simp] theorem length_putBE (w n : Nat) : (putBE w n).length = w := by
  induction w generalizing n with
  | zero => rfl
  | succ w ih => simp [putBE, ih]

theorem natBE_concat (bs : List UInt8) (b : UInt8) :
    natBE (bs ++ [b]) = natBE bs * 256 + b.toNat := by
  simp [natBE]

/-- A byte string spells a number that fits its width. -/
theorem natBE_lt (bs : List UInt8) : natBE bs < 256 ^ bs.length := by
  induction bs using List.reverseRecOn with
  | nil => simp [natBE]
  | append_singleton bs b ih =>
      have hb : b.toNat < 256 := b.toNat_lt
      rw [natBE_concat, List.length_append, List.length_singleton, Nat.pow_succ]
      omega

/-- Reading back a word gives the number modulo its width. -/
theorem natBE_putBE (w n : Nat) : natBE (putBE w n) = n % 256 ^ w := by
  induction w generalizing n with
  | zero => simp [putBE, natBE, Nat.mod_one]
  | succ w ih =>
      have hbyte : (UInt8.ofNat n).toNat = n % 256 := UInt8.toNat_ofNat'
      have hsplit : n % (256 * 256 ^ w) = n % 256 + 256 * (n / 256 % 256 ^ w) := Nat.mod_mul
      rw [putBE, natBE_concat, ih, hbyte, Nat.pow_succ, Nat.mul_comm (256 ^ w) 256, hsplit]
      omega

theorem natBE_putBE_of_lt {w n : Nat} (h : n < 256 ^ w) : natBE (putBE w n) = n := by
  rw [natBE_putBE, Nat.mod_eq_of_lt h]

/-- A byte string is the word of the number it spells. -/
theorem putBE_natBE (bs : List UInt8) : putBE bs.length (natBE bs) = bs := by
  induction bs using List.reverseRecOn with
  | nil => rfl
  | append_singleton bs b ih =>
      have hb : b.toNat < 256 := b.toNat_lt
      have hdiv : (natBE bs * 256 + b.toNat) / 256 = natBE bs := by omega
      rw [List.length_append, List.length_singleton, putBE, natBE_concat, hdiv, ih]
      simp [UInt8.ofNat_add, UInt8.ofNat_mul, show (UInt8.ofNat 256 : UInt8) = 0 from rfl]

/-- Words of numbers that fit are equal only for equal numbers. -/
theorem putBE_inj {w m n : Nat} (hm : m < 256 ^ w) (hn : n < 256 ^ w)
    (h : putBE w m = putBE w n) : m = n := by
  rw [← natBE_putBE_of_lt hm, ← natBE_putBE_of_lt hn, h]

/-! ## prefix-free encoders -/

variable {α β γ : Type*}

/-- An encoder is prefix-free when the encoded value and what follows it
are both determined by their concatenation. -/
def PrefixFree (put : α → List γ) : Prop :=
  ∀ ⦃a b : α⦄ ⦃r s : List γ⦄, put a ++ r = put b ++ s → a = b ∧ r = s

theorem PrefixFree.injective {put : α → List γ} (h : PrefixFree put) :
    Function.Injective put := by
  intro a b hab
  exact (h (a := a) (b := b) (r := []) (s := []) (by rw [hab])).1

/-- No encoding is a proper prefix of another. -/
theorem PrefixFree.eq_of_prefix {put : α → List γ} (h : PrefixFree put) {a b : α}
    (hab : put a <+: put b) : put a = put b := by
  obtain ⟨r, hr⟩ := hab
  have heq : put a ++ r = put b ++ [] := by rw [hr, List.append_nil]
  rw [(h heq).1]

/-- An injective encoder of fixed width is prefix-free. -/
theorem PrefixFree.of_length {put : α → List γ} {w : Nat} (hw : ∀ a, (put a).length = w)
    (hinj : Function.Injective put) : PrefixFree put := by
  intro a b r s h
  obtain ⟨hab, hrs⟩ := List.append_inj h (by rw [hw, hw])
  exact ⟨hinj hab, hrs⟩

/-- Two prefix-free fields side by side. -/
theorem PrefixFree.pair {f : α → List γ} {g : β → List γ} (hf : PrefixFree f)
    (hg : PrefixFree g) : PrefixFree fun p : α × β => f p.1 ++ g p.2 := by
  rintro ⟨a, b⟩ ⟨a', b'⟩ r s h
  simp only [List.append_assoc] at h
  obtain ⟨ha, htail⟩ := hf h
  obtain ⟨hb, hrs⟩ := hg htail
  exact ⟨Prod.ext ha hb, hrs⟩

/-- Renaming the encoded values along an injection. -/
theorem PrefixFree.comp {put : β → List γ} (h : PrefixFree put) {e : α → β}
    (he : Function.Injective e) : PrefixFree fun a => put (e a) := by
  intro a b r s hab
  obtain ⟨heq, hrs⟩ := h hab
  exact ⟨he heq, hrs⟩

/-- A constant in front changes nothing. -/
theorem PrefixFree.cons {put : α → List γ} (h : PrefixFree put) (magic : List γ) :
    PrefixFree fun a => magic ++ put a := by
  intro a b r s hab
  simp only [List.append_assoc] at hab
  exact h (List.append_cancel_left hab)

/-- Lists of one length, their records back to back. -/
theorem PrefixFree.flatMap {put : α → List γ} (h : PrefixFree put) :
    ∀ {xs ys : List α} {r s : List γ}, xs.length = ys.length →
      xs.flatMap put ++ r = ys.flatMap put ++ s → xs = ys ∧ r = s
  | [], [], _, _, _, heq => ⟨rfl, by simpa using heq⟩
  | x :: xs, y :: ys, r, s, hlen, heq => by
      simp only [List.flatMap_cons, List.append_assoc] at heq
      obtain ⟨hx, htail⟩ := h heq
      obtain ⟨hxs, hrs⟩ := h.flatMap (by simpa using hlen) htail
      exact ⟨by rw [hx, hxs], hrs⟩

/-- A count word followed by the records. -/
def putCounted (put : α → List UInt8) (xs : List α) : List UInt8 :=
  putBE 8 xs.length ++ xs.flatMap put

/-- Lists behind an eight-byte count are prefix-free as long as the count
is not truncated. -/
theorem PrefixFree.counted {put : α → List UInt8} (h : PrefixFree put)
    {xs ys : List α} {r s : List UInt8} (hx : xs.length < 2 ^ 64) (hy : ys.length < 2 ^ 64)
    (heq : putCounted put xs ++ r = putCounted put ys ++ s) : xs = ys ∧ r = s := by
  simp only [putCounted, List.append_assoc] at heq
  obtain ⟨hcount, heq⟩ := List.append_inj heq (by simp)
  have hlen : xs.length = ys.length := putBE_inj (by omega) (by omega) hcount
  exact h.flatMap hlen heq

/-! ## fixed-width fields -/

/-- A byte array is its own encoding. -/
theorem prefixFree_vector (n : Nat) :
    PrefixFree fun v : Vector UInt8 n => v.toList :=
  PrefixFree.of_length (w := n) (by simp) fun _ _ h => Vector.toList_inj.mp h

/-- `u64::to_be_bytes`. -/
def putU64 (x : UInt64) : List UInt8 := putBE 8 x.toNat

/-- `i64::to_be_bytes`: the two's-complement word. -/
def putI64 (x : Int64) : List UInt8 := putU64 x.toUInt64

@[simp] theorem length_putU64 (x : UInt64) : (putU64 x).length = 8 := length_putBE _ _

@[simp] theorem length_putI64 (x : Int64) : (putI64 x).length = 8 := length_putU64 _

/-- `u64::from_be_bytes`. -/
def getU64 (bs : List UInt8) : UInt64 := UInt64.ofNat (natBE bs)

/-- `i64::from_be_bytes`. -/
def getI64 (bs : List UInt8) : Int64 := (getU64 bs).toInt64

theorem getU64_putU64 (x : UInt64) : getU64 (putU64 x) = x := by
  have hx : x.toNat < 256 ^ 8 := by have := x.toNat_lt; omega
  rw [getU64, putU64, natBE_putBE_of_lt hx, UInt64.ofNat_toNat]

theorem putU64_getU64 {bs : List UInt8} (h : bs.length = 8) : putU64 (getU64 bs) = bs := by
  have hlt : natBE bs < 2 ^ 64 := by have := natBE_lt bs; rw [h] at this; omega
  rw [putU64, getU64, UInt64.toNat_ofNat_of_lt' hlt, ← h, putBE_natBE]

theorem getI64_putI64 (x : Int64) : getI64 (putI64 x) = x := by
  rw [getI64, putI64, getU64_putU64]
  exact Int64.toInt64_toUInt64 x

theorem putI64_getI64 {bs : List UInt8} (h : bs.length = 8) : putI64 (getI64 bs) = bs := by
  rw [putI64, getI64, UInt64.toUInt64_toInt64, putU64_getU64 h]

theorem prefixFree_putU64 : PrefixFree putU64 :=
  PrefixFree.of_length (w := 8) length_putU64 (Function.LeftInverse.injective getU64_putU64)

theorem prefixFree_putI64 : PrefixFree putI64 :=
  PrefixFree.of_length (w := 8) length_putI64 (Function.LeftInverse.injective getI64_putI64)

end Wire
