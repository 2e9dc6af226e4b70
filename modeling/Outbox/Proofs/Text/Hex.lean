import Mathlib
import Outbox.Text.Hex

/-!
# Hexadecimal text

A run of digits is read as the bytes that it is written for, and digits of either letter case are
read as the lower-case ones that are written.  The written digits stand in the order of the numbers
they stand for, so written byte strings are ordered as the byte strings are.

* `Hex.value?_eq_some_iff` — which characters are digits, and of what;
* `Hex.decode?_eq_some_iff`, `Hex.decode?_encode` — what is read as given bytes;
* `Hex.encode_lt_encode_iff` — the order of written byte strings.
-/

namespace Outbox.Hex

/-! ## Digits -/

theorem toNat_toLower (c : Char) :
    c.toLower.toNat = if 65 ≤ c.toNat ∧ c.toNat ≤ 90 then c.toNat + 32 else c.toNat := by
  have hA : (c.val ≥ 'A'.val) ↔ 65 ≤ c.toNat := UInt32.le_iff_toNat_le
  have hZ : (c.val ≤ 'Z'.val) ↔ c.toNat ≤ 90 := UInt32.le_iff_toNat_le
  unfold Char.toLower
  by_cases h : 65 ≤ c.toNat ∧ c.toNat ≤ 90
  · rw [dif_pos ⟨hA.mpr h.1, hZ.mpr h.2⟩, if_pos h]
    show (c.val + 32).toNat = c.toNat + 32
    rw [UInt32.toNat_add]
    have : c.val.toNat = c.toNat := rfl
    simp only [this, UInt32.reduceToNat]
    omega
  · rw [dif_neg fun h' => h ⟨hA.mp h'.1, hZ.mp h'.2⟩, if_neg h]

theorem toNat_digit {n : Nat} (h : n < 16) :
    (digit n).toNat = if n < 10 then 48 + n else 87 + n := by
  unfold digit
  split
  · rw [Char.toNat_ofNat, if_pos (.inl (by omega))]
  · rw [Char.toNat_ofNat, if_pos (.inl (by omega))]

/-- The digits of a number are its lower-case one and, above nine, the same letter in upper case. -/
theorem value?_eq_some_iff {c : Char} {n : Nat} :
    value? c = some n ↔ n < 16 ∧ c.toLower = digit n := by
  have hle {a b : Char} : a ≤ b ↔ a.toNat ≤ b.toNat := UInt32.le_iff_toNat_le
  have hlower := toNat_toLower c
  simp only [value?, hle, Char.reduceToNat]
  constructor
  · intro h
    have hn : n < 16 := by split_ifs at h <;> cases h <;> omega
    refine ⟨hn, Char.toNat_inj.mp ?_⟩
    rw [hlower, toNat_digit hn]
    split_ifs at h ⊢ <;> cases h <;> omega
  · rintro ⟨hn, h⟩
    have hnat := congrArg Char.toNat h
    rw [hlower, toNat_digit hn] at hnat
    split_ifs at hnat ⊢ <;> (congr 1; omega)

theorem value?_digit {n : Nat} (h : n < 16) : value? (digit n) = some n := by
  refine value?_eq_some_iff.mpr ⟨h, Char.toNat_inj.mp ?_⟩
  rw [toNat_toLower, toNat_digit h]
  split_ifs <;> omega

theorem toLower_digit {n : Nat} (h : n < 16) : (digit n).toLower = digit n :=
  (value?_eq_some_iff.mp (value?_digit h)).2

theorem digit_inj {m n : Nat} (hm : m < 16) (hn : n < 16) : digit m = digit n ↔ m = n := by
  refine ⟨fun h => ?_, congrArg digit⟩
  have := value?_digit hm
  rw [h, value?_digit hn] at this
  exact (Option.some.inj this).symm

theorem digit_lt_digit_iff {m n : Nat} (hm : m < 16) (hn : n < 16) :
    digit m < digit n ↔ m < n := by
  have hlt : digit m < digit n ↔ (digit m).toNat < (digit n).toNat := UInt32.lt_iff_toNat_lt
  rw [hlt, toNat_digit hm, toNat_digit hn]
  split_ifs <;> omega

/-! ## Bytes -/

theorem high_lt (b : UInt8) : b.toNat / 16 < 16 := by have := b.toNat_lt; omega

theorem low_lt (b : UInt8) : b.toNat % 16 < 16 := Nat.mod_lt _ (by decide)

@[simp]
theorem encode_nil : encode [] = [] := rfl

@[simp]
theorem encode_cons (b : UInt8) (bytes : List UInt8) :
    encode (b :: bytes) = digit (b.toNat / 16) :: digit (b.toNat % 16) :: encode bytes := rfl

theorem length_encode (bytes : List UInt8) : (encode bytes).length = 2 * bytes.length := by
  induction bytes with
  | nil => rfl
  | cons b bytes ih => simp only [encode_cons, List.length_cons, ih]; omega

/-- Written bytes consist of lower-case digits. -/
theorem exists_digit_of_mem_encode {bytes : List UInt8} {c : Char} (h : c ∈ encode bytes) :
    ∃ n < 16, c = digit n := by
  induction bytes with
  | nil => simp at h
  | cons b bytes ih =>
    rw [encode_cons, List.mem_cons, List.mem_cons] at h
    rcases h with rfl | rfl | h
    · exact ⟨_, high_lt b, rfl⟩
    · exact ⟨_, low_lt b, rfl⟩
    · exact ih h

theorem map_toLower_encode (bytes : List UInt8) :
    (encode bytes).map Char.toLower = encode bytes := by
  refine (List.map_congr_left fun c hc => ?_).trans (List.map_id _)
  obtain ⟨n, hn, rfl⟩ := exists_digit_of_mem_encode hc
  exact toLower_digit hn

/-- What is read as given bytes is what is written for them, in letters of either case. -/
theorem decode?_eq_some_iff {cs : List Char} {bytes : List UInt8} :
    decode? cs = some bytes ↔ cs.map Char.toLower = encode bytes := by
  induction cs using decode?.induct generalizing bytes with
  | case1 => cases bytes <;> simp [decode?]
  | case2 c => cases bytes <;> simp [decode?]
  | case3 hi lo rest ih =>
    constructor
    · intro h
      simp only [decode?, Option.bind_eq_bind, Option.bind_eq_some_iff] at h
      obtain ⟨m, hm, n, hn, tail, htail, h⟩ := h
      obtain rfl : UInt8.ofNat (16 * m + n) :: tail = bytes := Option.some.inj h
      obtain ⟨hm16, hhi⟩ := value?_eq_some_iff.mp hm
      obtain ⟨hn16, hlo⟩ := value?_eq_some_iff.mp hn
      have hbyte : (UInt8.ofNat (16 * m + n)).toNat = 16 * m + n := by
        rw [UInt8.toNat_ofNat']
        omega
      rw [List.map_cons, List.map_cons, ih.mp htail, hhi, hlo, encode_cons, hbyte,
        show (16 * m + n) / 16 = m by omega, show (16 * m + n) % 16 = n by omega]
    · intro h
      cases bytes with
      | nil => simp at h
      | cons b tail =>
        simp only [List.map_cons, encode_cons, List.cons.injEq] at h
        obtain ⟨hhi, hlo, htail⟩ := h
        have hbyte : UInt8.ofNat (16 * (b.toNat / 16) + b.toNat % 16) = b := by
          rw [Nat.div_add_mod, UInt8.ofNat_toNat]
        simp only [decode?, value?_eq_some_iff.mpr ⟨high_lt b, hhi⟩,
          value?_eq_some_iff.mpr ⟨low_lt b, hlo⟩, ih.mpr htail, Option.bind_eq_bind,
          Option.bind_some, hbyte]
        rfl

theorem decode?_encode (bytes : List UInt8) : decode? (encode bytes) = some bytes :=
  decode?_eq_some_iff.mpr (map_toLower_encode bytes)

/-! ## Order -/

/-- Written bytes are ordered by their first difference, as the bytes are. -/
theorem encode_lt_encode_iff {bytes bytes' : List UInt8} :
    encode bytes < encode bytes' ↔ bytes < bytes' := by
  induction bytes generalizing bytes' with
  | nil => cases bytes' <;> simp
  | cons b rest ih =>
    cases bytes' with
    | nil => simp
    | cons b' rest' =>
      simp only [encode_cons, List.cons_lt_cons_iff, ih,
        digit_lt_digit_iff (high_lt b) (high_lt b'),
        digit_lt_digit_iff (low_lt b) (low_lt b'), digit_inj (high_lt b) (high_lt b'),
        digit_inj (low_lt b) (low_lt b'), UInt8.lt_iff_toNat_lt, ← UInt8.toNat_inj]
      by_cases hrest : rest < rest' <;> simp only [hrest, and_true, and_false, or_false] <;> omega

end Outbox.Hex
