import Rustytree.Errors
/-!
# Data types

The zarrs data types the code tells apart, the names it gives them in NumPy
and the two dispatches over them (`array.rs`, `dtype_dispatch.rs`).
-/

namespace Rustytree

/-- The zarrs marker types that `is::<..>()` and `downcast_ref` look for. -/
inductive DataKind where
  | bool | int8 | int16 | int32 | int64 | uint8 | uint16 | uint32 | uint64 | float32 | float64
  | bytes | string
  | fixedLengthUtf32 (capacityCodePoints : Nat)
  | other
  deriving DecidableEq, Repr

/-- A zarrs `DataType`: its marker type, its Zarr V3 name if it has one, and
what `Display` prints. -/
structure DataType where
  kind : DataKind
  nameV3 : Option String
  display : String
  deriving DecidableEq, Repr

namespace DataType

/-- `zarrs_dtype_zarr_name`. -/
def zarrName (dtype : DataType) : String := dtype.nameV3.getD dtype.display

/-- `zarrs_dtype_to_numpy_str`: the declared NumPy dtype. -/
def toNumpyStr (dtype : DataType) : String :=
  match dtype.kind with
  | .bytes | .string => "object"
  | .fixedLengthUtf32 n => s!"<U{n}"
  | _ => dtype.zarrName

/-- `zarrs_dtype_read_numpy_str`: the dtype the read materialises. -/
def readNumpyStr (dtype : DataType) : String :=
  match dtype.kind with
  | .string => "T"
  | _ => dtype.toNumpyStr

/-- The arms of `for_each_supported_dtype!`. -/
def numeric (dtype : DataType) : Bool :=
  match dtype.kind with
  | .bool | .int8 | .int16 | .int32 | .int64 | .uint8 | .uint16 | .uint32 | .uint64 | .float32 | .float64 => true
  | _ => false

/-- The dtypes `read_string_subset` takes. -/
def stringLike (dtype : DataType) : Bool :=
  match dtype.kind with
  | .string | .fixedLengthUtf32 _ => true
  | _ => false

/-- `read_subset` can read it. -/
def supported (dtype : DataType) : Bool := dtype.stringLike || dtype.numeric

/-- Declared and read dtype differ for the variable-length strings only. -/
theorem readNumpyStr_eq (dtype : DataType) (h : dtype.kind ≠ .string) :
    dtype.readNumpyStr = dtype.toNumpyStr := by
  unfold readNumpyStr
  split
  · contradiction
  · rfl

end DataType
end Rustytree
