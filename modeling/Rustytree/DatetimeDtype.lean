import Rustytree.Paths
/-!
# The dtype of a time variable (`_metadata_only_datetime_dtype.patched`)

`patched` decodes two zeros, that is the reference date, where xarray decodes the
first and the last value. xarray is a parameter: what it documents of
`decode_cf_datetime` is that dates in the range of `datetime64[ns]` decode to
that dtype and others to `object`. So both agree exactly if the reference
date is in range when the two values are, and only then.
-/

namespace Rustytree.DatetimeDtype

/-! ## The source -/

/-- The dtypes a decoded time variable can have. -/
inductive NpDtype where
  | datetime64
  | object
  deriving DecidableEq

/-- An integer dtype of numpy. -/
structure IntDtype where
  signed : Bool
  bits : Nat

def IntDtype.Holds (dtype : IntDtype) (value : Int) : Prop :=
  if dtype.signed then -2 ^ (dtype.bits - 1) ≤ value ∧ value < 2 ^ (dtype.bits - 1)
  else 0 ≤ value ∧ value < 2 ^ dtype.bits

/-- An integer array whose dtype holds its values. -/
structure IntArray where
  dtype : IntDtype
  values : List Int
  holds : ∀ value ∈ values, dtype.Holds value

/-- A time variable that is not empty. -/
structure TimeVariable extends IntArray where
  nonempty : values ≠ []

/-- The arguments that `patched` passes on as they are. -/
structure DecodeArgs where
  units : Str
  calendar : Option Str
  useCftime : Option Bool
  timeUnit : Str

theorem IntDtype.holds_zero (dtype : IntDtype) : dtype.Holds 0 := by
  unfold IntDtype.Holds
  split
  · have hpos : (0 : Int) < 2 ^ (dtype.bits - 1) := Int.pow_pos (by decide)
    omega
  · exact ⟨Int.le_refl 0, Int.pow_pos (by decide)⟩

/-- `np.array([0, 0], dtype)`. -/
def zeros (dtype : IntDtype) : IntArray where
  dtype := dtype
  values := [0, 0]
  holds := by
    intro value hvalue
    obtain rfl : value = 0 := by simpa using hvalue
    exact dtype.holds_zero

@[simp] theorem zeros_values (dtype : IntDtype) : (zeros dtype).values = [0, 0] := rfl

def TimeVariable.first (data : TimeVariable) : Int := data.values.head data.nonempty

def TimeVariable.last (data : TimeVariable) : Int := data.values.getLast data.nonempty

/-- What xarray peeks at: the first and the last value. -/
def TimeVariable.ends (data : TimeVariable) : IntArray where
  dtype := data.dtype
  values := [data.first, data.last]
  holds := by
    intro value hvalue
    rcases List.mem_pair.1 hvalue with rfl | rfl
    · exact data.holds _ (List.head_mem data.nonempty)
    · exact data.holds _ (List.getLast_mem data.nonempty)

@[simp] theorem TimeVariable.ends_values (data : TimeVariable) : data.ends.values = [data.first, data.last] := rfl

inductive TimeUnit where
  | days
  | hours
  | minutes
  | seconds

def TimeUnit.nanoseconds : TimeUnit → Int
  | .days => 86400 * 10 ^ 9
  | .hours => 3600 * 10 ^ 9
  | .minutes => 60 * 10 ^ 9
  | .seconds => 10 ^ 9

/-- What a string `U since R` says, with `R` in nanoseconds since 1970. -/
structure TimeUnits where
  unit : TimeUnit
  reference : Int

/-- `R + value * U`. -/
def TimeUnits.date (units : TimeUnits) (value : Int) : Int := units.reference + value * units.unit.nanoseconds

/-- The range of `datetime64[ns]`, 1677-09-21 to 2262-04-11: the integers of 64
bits but the least, which stands for no time. -/
def InNsRange (date : Int) : Prop := -2 ^ 63 < date ∧ date < 2 ^ 63

instance (date : Int) : Decidable (InNsRange date) := inferInstanceAs (Decidable (_ ∧ _))

/-- xarray's functions: `decode_cf_datetime`, of whose result only the dtype
matters (a result may have none), the original `_decode_cf_datetime_dtype`, and
how units are read. -/
structure Xarray where
  decodeCfDatetime : IntArray → DecodeArgs → Except String (Option NpDtype)
  decodeCfDatetimeDtype : TimeVariable → DecodeArgs → Except String NpDtype
  readUnits : Str → Option TimeUnits

/-- `patched`. -/
def patched (xtimes : Xarray) (data : TimeVariable) (args : DecodeArgs) : Except String NpDtype :=
  match xtimes.decodeCfDatetime (zeros data.dtype) args with
  | .ok result => .ok (result.getD .object)
  | .error _ => xtimes.decodeCfDatetimeDtype data args

/-! ## When the two agree -/

/-- The arguments of the default calendar. -/
def defaultArgs (units : Str) : DecodeArgs := ⟨units, some "proleptic_gregorian".toList, none, "ns".toList⟩

/-- What xarray documents: units of a fixed length decode, to `datetime64` exactly if
all dates are in its range, and the original decodes the first and last value. -/
structure Xarray.Documented (xtimes : Xarray) : Prop where
  decodes : ∀ (array : IntArray) (s : Str) (units : TimeUnits), array.values ≠ [] → xtimes.readUnits s = some units →
    xtimes.decodeCfDatetime array (defaultArgs s) =
      .ok (some (if ∀ value ∈ array.values, InNsRange (units.date value) then .datetime64 else .object))
  peeks : ∀ (data : TimeVariable) (args : DecodeArgs),
    xtimes.decodeCfDatetimeDtype data args = (xtimes.decodeCfDatetime data.ends args).map (·.getD .object)

section
variable {xtimes : Xarray} {s : Str} {units : TimeUnits}

/-- The patch looks at the reference date only. -/
theorem patched_eq (hx : xtimes.Documented) (hs : xtimes.readUnits s = some units) (data : TimeVariable) :
    patched xtimes data (defaultArgs s) = .ok (if InNsRange units.reference then .datetime64 else .object) := by
  have hdecode := hx.decodes (zeros data.dtype) s units (List.cons_ne_nil 0 [0]) hs
  have hzero : units.date 0 = units.reference := by simp [TimeUnits.date]
  rw [patched, hdecode]
  simp [hzero]

/-- The original looks at the first and the last date. -/
theorem decodeCfDatetimeDtype_eq (hx : xtimes.Documented) (hs : xtimes.readUnits s = some units)
    (data : TimeVariable) :
    xtimes.decodeCfDatetimeDtype data (defaultArgs s) =
      .ok (if InNsRange (units.date data.first) ∧ InNsRange (units.date data.last) then .datetime64 else .object) := by
  have hdecode := hx.decodes data.ends s units (List.cons_ne_nil data.first [data.last]) hs
  rw [hx.peeks, hdecode]
  simp [Except.map]

theorem dtype_eq_iff {p q : Prop} [Decidable p] [Decidable q] :
    ((if p then NpDtype.datetime64 else .object) = if q then .datetime64 else .object) ↔ (p ↔ q) := by
  by_cases hp : p <;> by_cases hq : q <;> simp [hp, hq]

/-- The patch returns the dtype that peeking would exactly if the reference date
is in range just when the first and the last date are. -/
theorem patched_eq_original_iff (hx : xtimes.Documented) (hs : xtimes.readUnits s = some units) (data : TimeVariable) :
    patched xtimes data (defaultArgs s) = xtimes.decodeCfDatetimeDtype data (defaultArgs s) ↔
      (InNsRange units.reference ↔ InNsRange (units.date data.first) ∧ InNsRange (units.date data.last)) := by
  rw [patched_eq hx hs, decodeCfDatetimeDtype_eq hx hs, Except.ok.injEq]
  exact dtype_eq_iff

end

/-! ## A reference date far from the data -/

/-- Days since the first day of year 1, and since the start of 2000. -/
def readUnits (s : Str) : Option TimeUnits :=
  if s = "days since 0001-01-01".toList then some ⟨.days, -62135596800 * 10 ^ 9⟩
  else if s = "days since 2000-01-01".toList then some ⟨.days, 946684800 * 10 ^ 9⟩
  else none

def decode (array : IntArray) (args : DecodeArgs) : Except String (Option NpDtype) :=
  match readUnits args.units with
  | some units => .ok (some (if ∀ value ∈ array.values, InNsRange (units.date value) then .datetime64 else .object))
  | none => .error "unable to decode time units"

/-- xarray, for these two strings. -/
def xarrayTimes : Xarray where
  decodeCfDatetime := decode
  decodeCfDatetimeDtype data args := (decode data.ends args).map (·.getD .object)
  readUnits := readUnits

theorem xarrayTimes_documented : xarrayTimes.Documented where
  decodes array s units _ hs := by
    have hread : readUnits s = some units := hs
    simp [xarrayTimes, decode, defaultArgs, hread]
  peeks _ _ := rfl

/-- Two days of 1999 or of 2000, counted from either reference date. -/
def twoDays (first : Int) (h : 0 ≤ first ∧ first < 2 ^ 31) : TimeVariable where
  dtype := ⟨true, 64⟩
  values := [first, first + 1]
  holds := by
    intro value hvalue
    simp only [IntDtype.Holds, if_true]
    rcases List.mem_pair.1 hvalue with rfl | rfl <;> constructor <;> omega
  nonempty := List.cons_ne_nil _ _

/-- Days of 2000 counted from its start: both say `datetime64`. -/
theorem patched_eq_original_recent :
    patched xarrayTimes (twoDays 30 (by decide)) (defaultArgs "days since 2000-01-01".toList) =
      xarrayTimes.decodeCfDatetimeDtype (twoDays 30 (by decide)) (defaultArgs "days since 2000-01-01".toList) :=
  (patched_eq_original_iff xarrayTimes_documented
    (rfl : xarrayTimes.readUnits _ = some ⟨.days, 946684800 * 10 ^ 9⟩) _).2 (by decide)

/-- Days of 1999 counted from year 1: the dates are in range and the reference date is not. -/
theorem patched_year_one :
    xarrayTimes.Documented ∧
    patched xarrayTimes (twoDays 730000 (by decide)) (defaultArgs "days since 0001-01-01".toList) = .ok .object ∧
    xarrayTimes.decodeCfDatetimeDtype (twoDays 730000 (by decide)) (defaultArgs "days since 0001-01-01".toList) =
      .ok .datetime64 :=
  ⟨xarrayTimes_documented, rfl, rfl⟩

end Rustytree.DatetimeDtype
