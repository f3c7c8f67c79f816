import TinyScript.Proofs.Binary64

/-!
# Doubles and their fields

Arithmetic takes the fields of its operands out of their bits and puts those of its result together again.

* `Binary64.ofUnpacked`              fields as an exact number
* `Binary64.ofFloat_eq_ofUnpacked`   the fields that are taken out of a double
* `Binary64.ofBits_pack_finite`      what is made of the fields of a rounded number
-/

namespace TinyScript.Binary64

open Float.Model Float.Model.UnpackedFloat

def isNegative : Sign → Bool
  | .negative => true
  | .positive => false

theorem apply_eq_signed (s : Sign) (n : Nat) : s.apply n = signed (isNegative s) n := by
  cases s <;> rfl

def ofUnpacked : UnpackedFloat → Binary64
  | .infinity s => .infinite (isNegative s)
  | .notANumber => .nan
  | .zero s => .finite (isNegative s) 0 (-1074)
  | .finite s m e _ => .finite (isNegative s) m e

theorem ofUnpacked_zero (s : Sign) : ofUnpacked (.zero s) = .finite (isNegative s) 0 (-1074) := rfl

theorem ofUnpacked_finite (s : Sign) {m : Nat} (e : Int) (h : 0 < m) :
    ofUnpacked (.finite s m e h) = .finite (isNegative s) m e := rfl

theorem eq_finite_of_ofUnpacked {u : UnpackedFloat} {s : Sign} {m : Nat} {e : Int} (h : 0 < m)
    (hu : ofUnpacked u = .finite (isNegative s) m e) : u = .finite s m e h := by
  cases u with
  | zero s' =>
    obtain ⟨-, rfl, -⟩ := Binary64.finite.inj hu
    cases h
  | finite s' m' e' h' =>
    obtain ⟨hs, rfl, rfl⟩ := Binary64.finite.inj hu
    obtain rfl : s' = s := by
      cases s <;> cases s'
      all_goals first | rfl | cases hs
    rfl
  | infinity s' => cases hu
  | notANumber => cases hu

/-! ### Taking fields out -/

section

variable (b : BitVec 64)

theorem toNat_unpackExponent :
    (@unpackExponent Format.binary64 b).toNat = (b.toNat >>> 52) % 2048 := by
  show (b.extractLsb 62 52).toNat = _
  rw [BitVec.extractLsb_toNat]

theorem toNat_unpackMantissa :
    (@unpackMantissa Format.binary64 b).toNat = b.toNat % leadingBit := by
  show (b.extractLsb 51 0).toNat = _
  rw [BitVec.extractLsb_toNat, Nat.shiftRight_zero]
  rfl

theorem isNegative_unpackSign :
    isNegative (Sign.ofBitVec (@unpackSign Format.binary64 b)) =
      ((b.toNat >>> 63) % 2 == 1) := by
  have hsign : (@unpackSign Format.binary64 b).toNat = (b.toNat >>> 63) % 2 := by
    show (b.extractLsb 63 63).toNat = _
    rw [BitVec.extractLsb_toNat]
  have hbit := Nat.mod_two_eq_zero_or_one (b.toNat >>> 63)
  unfold Sign.ofBitVec
  split
  · next h =>
    rw [h] at hsign
    rw [← hsign]
    rfl
  · next h =>
    rw [hbit.resolve_left fun h0 => h (BitVec.eq_of_toNat_eq (hsign.trans h0))]
    rfl

theorem toNat_leading_append {m : BitVec 52} : (1#1 ++ m).toNat = leadingBit + m.toNat := by
  rw [BitVec.toNat_append, leadingBit, ← Nat.shiftLeft_add_eq_or_of_lt m.isLt]
  rfl

theorem ofUnpacked_unpack : ofUnpacked (UnpackedFloat.unpack Format.binary64 b) = ofBits b.toNat := by
  have hones : @unpackExponent Format.binary64 b = -1#_ ↔ (b.toNat >>> 52) % 2048 = 2047 := by
    rw [← BitVec.toNat_inj, toNat_unpackExponent]
    rfl
  have hzeros : @unpackExponent Format.binary64 b = 0#_ ↔ (b.toNat >>> 52) % 2048 = 0 := by
    rw [← BitVec.toNat_inj, toNat_unpackExponent]
    rfl
  have hnone : @unpackMantissa Format.binary64 b = 0#_ ↔ b.toNat % leadingBit = 0 := by
    rw [← BitVec.toNat_inj, toNat_unpackMantissa]
    rfl
  rw [ofBits_eq, ofFields, ← isNegative_unpackSign]
  unfold UnpackedFloat.unpack
  dsimp only
  by_cases ho : @unpackExponent Format.binary64 b = -1#_
  · rw [if_pos ho, if_pos (hones.mp ho)]
    by_cases hm : @unpackMantissa Format.binary64 b = 0#_
    · rw [if_pos hm, if_pos (hnone.mp hm)]
      rfl
    · rw [if_neg hm, if_neg (mt hnone.mpr hm)]
      rfl
  rw [if_neg ho, if_neg (mt hones.mpr ho)]
  by_cases hz : @unpackExponent Format.binary64 b = 0#_
  · rw [if_pos hz, if_pos (hzeros.mp hz)]
    by_cases hm : @unpackMantissa Format.binary64 b = 0#_
    · rw [dif_pos hm, hnone.mp hm, ofUnpacked_zero]
    · rw [dif_neg hm, ofUnpacked_finite, toNat_unpackMantissa, toNat_unpackExponent, hzeros.mp hz]
      rfl
  · rw [if_neg hz, if_neg (mt hzeros.mpr hz), ofUnpacked_finite, toNat_leading_append,
      toNat_unpackMantissa, toNat_unpackExponent]
    rfl

end

/-- the fields that are taken out of a double are the number that it is read as -/
theorem ofFloat_eq_ofUnpacked (x : Float) : ofFloat x = ofUnpacked x.toModel.unpack :=
  (ofUnpacked_unpack x.toBits.toBitVec).symm

/-! ### Putting fields together -/

theorem toNat_packComponents (s : Sign) (e : BitVec 11) (m : BitVec 52) :
    (packComponents Format.binary64 s e m).toNat =
      (isNegative s).toNat * 2 ^ 63 + (e.toNat * 2 ^ 52 + m.toNat) := by
  have hsign : s.toBitVec.toNat = (isNegative s).toNat := by cases s <;> rfl
  show (s.toBitVec ++ e ++ m).toNat = _
  rw [BitVec.toNat_append, BitVec.toNat_append, ← Nat.shiftLeft_add_eq_or_of_lt e.isLt,
    ← Nat.shiftLeft_add_eq_or_of_lt m.isLt, hsign, Nat.shiftLeft_eq, Nat.shiftLeft_eq]
  ring

theorem ofBits_packComponents (s : Sign) (e : BitVec 11) (m : BitVec 52) :
    ofBits (packComponents Format.binary64 s e m).toNat =
      ofFields (isNegative s).toNat e.toNat m.toNat := by
  have he := e.isLt
  have hm := m.isLt
  have hs : (isNegative s).toNat < 2 := by cases s <;> decide
  rw [toNat_packComponents, ofBits_eq, Nat.shiftRight_eq_div_pow, Nat.shiftRight_eq_div_pow, leadingBit_eq]
  congr 1 <;> omega

theorem toNat_beq_one (b : Bool) : (b.toNat == 1) = b := by cases b <;> rfl

theorem ofBits_pack_zero (s : Sign) :
    ofBits (UnpackedFloat.pack Format.binary64 (.zero s)).toNat = .finite (isNegative s) 0 (-1074) := by
  have hfields : UnpackedFloat.pack Format.binary64 (.zero s) =
      packComponents Format.binary64 s 0#11 0#52 := rfl
  rw [hfields, ofBits_packComponents, ofFields, toNat_beq_one]
  rfl

/-- A number in the form in which doubles are read comes back from its bits, unless it is too large. -/
theorem ofBits_pack_finite (s : Sign) {m : Nat} {e : Int} (h : 0 < m) (hc : Canonical m e) :
    ofBits (UnpackedFloat.pack Format.binary64 (.finite s m e h)).toNat =
      if e ≤ 971 then .finite (isNegative s) m e else .infinite (isNegative s) := by
  have hm := hc.mantissa_lt
  have he := hc.le_exponent
  have hbits : Format.binary64.mantissaBits = 53 := rfl
  have hlog : m.log2 + 1 = 53 ↔ 2 ^ 52 ≤ m := by
    have h52 := Nat.le_log2 (k := 52) h.ne'
    have h53 := Nat.log2_lt (k := 53) h.ne'
    omega
  have hbiased : (e + (Format.binary64.exponentBias : Nat) + (52 : Nat) : Int).toNat = (e + 1075).toNat := by
    show (e + (1023 : Nat) + (52 : Nat)).toNat = _
    congr 1
    omega
  unfold UnpackedFloat.pack
  dsimp only
  rw [hbiased, hbits]
  split
  · next hlarge =>
    have hinf : packedInfinity Format.binary64 s = packComponents Format.binary64 s (-1#11) 0#52 := rfl
    rw [if_neg (show ¬ e ≤ 971 by omega), hinf, ofBits_packComponents, ofFields, toNat_beq_one]
    rfl
  · next hsmall =>
    rw [if_pos (show e ≤ 971 by omega)]
    split
    · next hnormal =>
      have hleading := hlog.mp hnormal
      rw [ofBits_packComponents, BitVec.toNat_ofNat, BitVec.toNat_ofNat, ofFields, toNat_beq_one,
        leadingBit_eq]
      rw [if_neg (by omega), if_neg (by omega)]
      congr 1 <;> omega
    · next hsub =>
      have hleast : e = -1074 := hc.leading.resolve_left fun hl => hsub (hlog.mpr hl)
      have hfraction : (BitVec.ofNat 52 m).toNat = m := by
        rw [BitVec.toNat_ofNat]
        omega
      rw [ofBits_packComponents, hfraction, ofFields, toNat_beq_one, hleast]
      rfl

end TinyScript.Binary64
