import Talbot.HashFunctions
import Mathlib.Data.Int.Bitwise

namespace Talbot

/-!
The hash functions enumerate a cache set.

The first section has the hash functions once more, with the source's `int` and
`unsigned long` wrapping around.  Where nothing overflows they compute what the
exact functions do, and those run through the set in order.
-/

/-! ## Fixed-width arithmetic -/

/-- An `int`, in two's complement.  Where the source overflows this is the value it
wraps to; the statements only use values that fit. -/
def toInt (value : Int) : Int :=
  value.bmod (2 ^ 32)

/-- An `unsigned long`. -/
def toUnsignedLong (value : Int) : Nat :=
  (value % 2 ^ 64).toNat

def linHashInt (targetAddress offset setBits level : Nat) : Nat :=
  let sets := toInt (2 ^ setBits)
  toUnsignedLong (targetAddress +
    toUnsignedLong (toUnsignedLong (toInt (sets * offset)) <<< pageTableIndexShift level : Nat))

def xorHashInt (targetAddress offset setBits level : Nat) : Nat :=
  let targetSet := toInt (xorGetSet targetAddress setBits level)
  let leftHalf := toUnsignedLong
    ((targetAddress >>> (pageTableIndexShift level + setBits) : Nat) + (toUnsignedLong offset : Nat))
  let lowerSetBits := (leftHalf &&& ((1 <<< setBits) - 1)) ^^^ toUnsignedLong targetSet
  let rightHalf := targetAddress &&& ((1 <<< pageTableIndexShift level) - 1)
  toUnsignedLong (leftHalf <<< (pageTableIndexShift level + setBits) : Nat) |||
    toUnsignedLong (lowerSetBits <<< pageTableIndexShift level : Nat) ||| rightHalf

def linShiftHashInt (targetAddress offset setBits level : Nat) : Nat :=
  let sets := toInt (2 ^ setBits)
  let danglingBit : Int := ((targetAddress >>> pageTableIndexShift level) &&& 0x01 : Nat)
  let sum := toInt (offset + danglingBit)
  let pageTableIndex := toUnsignedLong (toInt (toInt (toInt (sets * sum.tdiv 2) * 2) + sum.tmod 2))
  toUnsignedLong ((targetAddress &&& ((2 ^ 64 - 1) ^^^ (1 <<< pageTableIndexShift level)) : Nat) +
    toUnsignedLong (pageTableIndex <<< pageTableIndexShift level : Nat))

def HashFunction.applyInt : HashFunction -> Nat -> Nat -> Nat -> Nat -> Nat
  | .linHash => linHashInt
  | .xorHash => xorHashInt
  | .linShiftHash => linShiftHashInt

/-- The largest `int` that a hash function computes.  The products are computed in
`int` before they are widened, so a large offset overflows although the result would
fit. -/
def HashFunction.product (hash : HashFunction) (targetAddress offset setBits level : Nat) : Nat :=
  match hash with
  | .linHash => 2 ^ setBits * offset
  | .xorHash => offset
  | .linShiftHash =>
      let danglingBit := entryOf level targetAddress % 2
      2 ^ setBits * ((offset + danglingBit) / 2) * 2 + (offset + danglingBit) % 2

/-- Neither the products nor the result overflow: the former are values of `int`,
and the latter is an unsigned long. -/
structure HashFunction.Fits (hash : HashFunction) (setBits level targetAddress offset : Nat) : Prop where
  product : hash.product targetAddress offset setBits level < 2 ^ 31
  result : hash.apply targetAddress offset setBits level < 2 ^ 64

theorem toInt_small {value : Nat} (small : value < 2 ^ 31) : toInt value = value := by
  unfold toInt
  apply Int.bmod_eq_of_le <;> omega

theorem toUnsignedLong_small {value : Nat} (small : value < 2 ^ 64) : toUnsignedLong value = value := by
  unfold toUnsignedLong
  omega

namespace HashFunction

variable (hash : HashFunction) {setBits level targetAddress offset : Nat}

theorem sets_small (small : setBits ≤ 8) : toInt (2 ^ setBits) = ((2 ^ setBits : Nat) : Int) := by
  have bound : 2 ^ setBits < 2 ^ 31 := Nat.pow_lt_pow_right (by decide) (by omega)
  rw [← toInt_small bound]
  rfl

theorem linHashInt_eq (small : setBits ≤ 8) (fits : HashFunction.linHash.Fits setBits level targetAddress offset) :
    linHashInt targetAddress offset setBits level = Talbot.linHash targetAddress offset setBits level := by
  rcases fits with ⟨product, result⟩
  have sets : (1 <<< setBits : Nat) = 2 ^ setBits := by rw [Nat.shiftLeft_eq, one_mul]
  change 2 ^ setBits * offset < 2 ^ 31 at product
  simp only [apply, Talbot.linHash, sets] at result
  have word : toUnsignedLong (2 ^ setBits * offset : Nat) = 2 ^ setBits * offset :=
    toUnsignedLong_small (Nat.lt_trans product (by decide))
  simp only [linHashInt, Talbot.linHash, sets]
  rw [sets_small small, ← Nat.cast_mul, toInt_small product, word,
    toUnsignedLong_small (Nat.lt_of_le_of_lt (Nat.le_add_left _ _) result), ← Nat.cast_add,
    toUnsignedLong_small result]

theorem xorHashInt_eq (small : setBits ≤ 8) (fits : HashFunction.xorHash.Fits setBits level targetAddress offset) :
    xorHashInt targetAddress offset setBits level = Talbot.xorHash targetAddress offset setBits level := by
  rcases fits with ⟨product, result⟩
  change offset < 2 ^ 31 at product
  have bound : 2 ^ setBits < 2 ^ 31 := Nat.pow_lt_pow_right (by decide) (by omega)
  have set : xorGetSet targetAddress setBits level < 2 ^ 31 := by
    unfold xorGetSet
    rw [Nat.shiftLeft_eq 1 setBits, one_mul, Nat.and_two_pow_sub_one_eq_mod]
    exact Nat.lt_trans (Nat.mod_lt _ (Nat.two_pow_pos _)) bound
  simp only [apply, Talbot.xorHash] at result
  have left := Nat.lt_of_le_of_lt (Nat.le_trans Nat.left_le_or Nat.left_le_or) result
  have lower := Nat.lt_of_le_of_lt (Nat.le_trans Nat.right_le_or Nat.left_le_or) result
  have half := Nat.lt_of_le_of_lt Nat.le_shiftLeft left
  simp only [xorHashInt, Talbot.xorHash]
  rw [toInt_small set, toUnsignedLong_small (Nat.lt_trans set (by decide)),
    toUnsignedLong_small (Nat.lt_trans product (by decide)), ← Nat.cast_add, toUnsignedLong_small half,
    toUnsignedLong_small left, toUnsignedLong_small lower]

/-- The computation in `int` gives the entry of the exact one. The bound on the
products is a bound on everything that is computed on the way. -/
theorem linShiftHashInt_eq (small : setBits ≤ 8)
    (fits : HashFunction.linShiftHash.Fits setBits level targetAddress offset) :
    linShiftHashInt targetAddress offset setBits level = Talbot.linShiftHash targetAddress offset setBits level := by
  rcases fits with ⟨product, result⟩
  have sets : (1 <<< setBits : Nat) = 2 ^ setBits := by rw [Nat.shiftLeft_eq, one_mul]
  have dangling : (targetAddress >>> pageTableIndexShift level) &&& 0x01 = entryOf level targetAddress % 2 :=
    Nat.and_one_is_mod _
  simp only [apply, Talbot.linShiftHash, sets, dangling, Nat.shiftLeft_eq _ 1, Nat.pow_one] at result
  simp only [linShiftHashInt, Talbot.linShiftHash, sets, dangling, Nat.shiftLeft_eq _ 1, Nat.pow_one]
  simp only [HashFunction.product] at product
  generalize entryOf level targetAddress % 2 = danglingBit at product result ⊢
  have rounds : (offset + danglingBit) / 2 ≤ 2 ^ setBits * ((offset + danglingBit) / 2) :=
    Nat.le_mul_of_pos_left _ (Nat.two_pow_pos setBits)
  have bounds : offset + danglingBit < 2 ^ 31 ∧ 2 ^ setBits * ((offset + danglingBit) / 2) * 2 < 2 ^ 31 := by
    generalize 2 ^ setBits * ((offset + danglingBit) / 2) = multiple at product rounds
    omega
  have sum : toInt (offset + danglingBit) = (offset + danglingBit : Nat) := by
    rw [← Nat.cast_add]
    exact toInt_small bounds.1
  have multiple : toInt ((2 ^ setBits : Nat) * ((offset + danglingBit) / 2 : Nat)) =
      (2 ^ setBits * ((offset + danglingBit) / 2) : Nat) := by
    rw [← Nat.cast_mul]
    exact toInt_small (Nat.lt_of_le_of_lt (Nat.le_mul_of_pos_right _ Nat.zero_lt_two) bounds.2)
  have doubled : toInt ((2 ^ setBits * ((offset + danglingBit) / 2) : Nat) * 2) =
      (2 ^ setBits * ((offset + danglingBit) / 2) * 2 : Nat) := by
    rw [show ((2 ^ setBits * ((offset + danglingBit) / 2) : Nat) : Int) * 2 = _ from (Nat.cast_mul _ 2).symm]
    exact toInt_small bounds.2
  have index : toInt ((2 ^ setBits * ((offset + danglingBit) / 2) * 2 : Nat) + ((offset + danglingBit) % 2 : Nat)) =
      (2 ^ setBits * ((offset + danglingBit) / 2) * 2 + (offset + danglingBit) % 2 : Nat) := by
    rw [← Nat.cast_add]
    exact toInt_small product
  have halved : ((offset + danglingBit : Nat) : Int).tdiv 2 = ((offset + danglingBit) / 2 : Nat) := rfl
  have parity : ((offset + danglingBit : Nat) : Int).tmod 2 = ((offset + danglingBit) % 2 : Nat) := rfl
  rw [sets_small small, sum, halved, parity, multiple, doubled, index,
    toUnsignedLong_small (Nat.lt_trans product (by decide)),
    toUnsignedLong_small (Nat.lt_of_le_of_lt (Nat.le_add_left _ _) result), ← Nat.cast_add,
    toUnsignedLong_small result]

/-- What fits is what the exact function computes. -/
theorem applyInt_eq (small : setBits ≤ 8) (fits : hash.Fits setBits level targetAddress offset) :
    hash.applyInt targetAddress offset setBits level = hash.apply targetAddress offset setBits level := by
  cases hash with
  | linHash => exact linHashInt_eq small fits
  | xorHash => exact xorHashInt_eq small fits
  | linShiftHash => exact linShiftHashInt_eq small fits

/-! ## The enumeration -/

theorem apply_strictMono (word : targetAddress < 2 ^ 64) {first second : Nat} :
    hash.apply targetAddress first setBits level < hash.apply targetAddress second setBits level ↔ first < second := by
  rw [hash.apply_eq first setBits level word, hash.apply_eq second setBits level word, Nat.add_lt_add_iff_right,
    pageAddress_lt_iff]
  exact (hash.entry_strictMono setBits _).lt_iff_lt

theorem product_mono {first second : Nat} (before : first ≤ second) :
    hash.product targetAddress first setBits level ≤ hash.product targetAddress second setBits level := by
  cases hash with
  | linHash => exact Nat.mul_le_mul_left _ before
  | xorHash => exact before
  | linShiftHash =>
      simp only [product]
      generalize entryOf level targetAddress % 2 = danglingBit
      rcases Nat.eq_or_lt_of_le (Nat.div_le_div_right (Nat.add_le_add_right before danglingBit) : _ ≤ _ / 2) with
        same | less
      · rw [same]
        omega
      · have further : 2 ^ setBits * ((first + danglingBit) / 2) + 2 ^ setBits ≤
            2 ^ setBits * ((second + danglingBit) / 2) := Nat.mul_le_mul_left (2 ^ setBits) less
        have positive := Nat.two_pow_pos setBits
        omega

/-- Smaller offsets overflow less. -/
theorem Fits.mono {hash : HashFunction} (word : targetAddress < 2 ^ 64) {first second : Nat}
    (fits : hash.Fits setBits level targetAddress second) (before : first ≤ second) :
    hash.Fits setBits level targetAddress first where
  product := Nat.lt_of_le_of_lt (hash.product_mono before) fits.product
  result := Nat.lt_of_le_of_lt (Nat.le_of_not_lt fun after =>
    Nat.not_lt_of_le before ((hash.apply_strictMono word).mp after)) fits.result

/-- The addresses of the target's set, from the target upwards, with the same
offset inside the entry. -/
structure Member (setBits level targetAddress address : Nat) : Prop where
  above : targetAddress ≤ address
  set : hash.set setBits (entryOf level address) = hash.set setBits (entryOf level targetAddress)
  low : address % 2 ^ pageTableIndexShift level = targetAddress % 2 ^ pageTableIndexShift level

/-- As long as nothing overflows, the hash runs through the members in order,
beginning with the target and leaving out none. -/
structure EnumeratesSet (setBits level targetAddress : Nat) : Prop where
  start : hash.Fits setBits level targetAddress 0 ∧ hash.applyInt targetAddress 0 setBits level = targetAddress
  increasing : ∀ first second, hash.Fits setBits level targetAddress first ->
    hash.Fits setBits level targetAddress second -> first < second ->
    hash.applyInt targetAddress first setBits level < hash.applyInt targetAddress second setBits level
  sound : ∀ offset, hash.Fits setBits level targetAddress offset ->
    hash.Member setBits level targetAddress (hash.applyInt targetAddress offset setBits level)
  complete : ∀ address, hash.Member setBits level targetAddress address ->
    (∃ offset, hash.Fits setBits level targetAddress offset ∧
      hash.applyInt targetAddress offset setBits level = address) ∨
    ∀ offset, hash.Fits setBits level targetAddress offset ->
      hash.applyInt targetAddress offset setBits level < address

theorem apply_zero (word : targetAddress < 2 ^ 64) : hash.apply targetAddress 0 setBits level = targetAddress := by
  rw [hash.apply_eq 0 setBits level word, entry_zero]
  exact address_split level targetAddress

theorem fits_zero (word : targetAddress < 2 ^ 64) : hash.Fits setBits level targetAddress 0 where
  product := by
    cases hash with
    | linHash => exact Nat.two_pow_pos 31
    | xorHash => exact Nat.two_pow_pos 31
    | linShiftHash =>
        simp only [product, Nat.zero_add]
        have half : entryOf level targetAddress % 2 / 2 = 0 := by omega
        rw [half]
        omega
  result := by
    rw [hash.apply_zero word]
    exact word

theorem entryOf_split {entry low : Nat} (small : low < 2 ^ pageTableIndexShift level) :
    entryOf level (pageAddress level entry 0 + low) = entry := by
  rw [entryOf, pageAddress_zero, Nat.shiftRight_eq_div_pow, Nat.shiftLeft_eq, Nat.add_comm,
    Nat.add_mul_div_right _ _ (Nat.two_pow_pos _), Nat.div_eq_of_lt small, Nat.zero_add]

theorem apply_member (word : targetAddress < 2 ^ 64) (offset : Nat) :
    hash.Member setBits level targetAddress (hash.apply targetAddress offset setBits level) where
  above := by
    have start : hash.apply targetAddress 0 setBits level = targetAddress := hash.apply_zero word
    have ordered : hash.apply targetAddress 0 setBits level ≤ hash.apply targetAddress offset setBits level :=
      Nat.le_of_not_lt fun below => Nat.not_lt_zero offset ((hash.apply_strictMono word).mp below)
    rwa [start] at ordered
  set := by
    rw [hash.apply_eq offset setBits level word, entryOf_split (Nat.mod_lt _ (Nat.two_pow_pos _))]
    exact hash.set_entry setBits _ offset
  low := by
    rw [hash.apply_eq offset setBits level word, pageAddress_zero, Nat.shiftLeft_eq, Nat.mul_add_mod',
      Nat.mod_mod]

theorem exists_apply (word : targetAddress < 2 ^ 64) {address : Nat}
    (member : hash.Member setBits level targetAddress address) :
    ∃ offset, hash.apply targetAddress offset setBits level = address := by
  have after : entryOf level targetAddress ≤ entryOf level address := by
    rw [entryOf, entryOf, Nat.shiftRight_eq_div_pow, Nat.shiftRight_eq_div_pow]
    exact Nat.div_le_div_right member.above
  rcases hash.exists_entry setBits _ after member.set with ⟨offset, same⟩
  refine ⟨offset, ?_⟩
  rw [hash.apply_eq offset setBits level word, same, ← member.low]
  exact address_split level address

end HashFunction

/-- Each of the three hashes enumerates the set of every address: it starts there,
goes up strictly, and visits exactly the addresses of the set at or behind the
start.  The source computes with `int`; wherever the products and the results fit,
which the statement asks for every offset on its own, these are the exact values. -/
theorem hashFunctions_enumerateSet (hash : HashFunction) {setBits targetAddress : Nat} (level : Nat)
    (small : setBits ≤ 8) (word : targetAddress < 2 ^ 64) : hash.EnumeratesSet setBits level targetAddress where
  start := by
    have fits : hash.Fits setBits level targetAddress 0 := hash.fits_zero word
    exact ⟨fits, (hash.applyInt_eq small fits).trans (hash.apply_zero word)⟩
  increasing := by
    intro first second fits fits' before
    rw [hash.applyInt_eq small fits, hash.applyInt_eq small fits']
    exact (hash.apply_strictMono word).mpr before
  sound := by
    intro offset fits
    rw [hash.applyInt_eq small fits]
    exact hash.apply_member word offset
  complete := by
    intro address member
    rcases hash.exists_apply word member with ⟨offset, rfl⟩
    by_cases fits : hash.Fits setBits level targetAddress offset
    · exact Or.inl ⟨offset, fits, hash.applyInt_eq small fits⟩
    · refine Or.inr fun other fits' => ?_
      rw [hash.applyInt_eq small fits', hash.apply_strictMono word]
      by_contra before
      exact fits (fits'.mono word (Nat.le_of_not_lt before))

/-- Thirty-two sets, from an odd entry of level 2. -/
theorem hashFunctions_enumerateSet_odd :
    HashFunction.linShiftHash.EnumeratesSet 5 2 (baseAddress + (1 <<< 21)) :=
  hashFunctions_enumerateSet .linShiftHash 2 (by decide) (by decide)

end Talbot
