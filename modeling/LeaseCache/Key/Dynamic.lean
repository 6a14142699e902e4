import LeaseCache.Key

/-!
# Keys of a type known only at run time

Callers without a typed key hand over a value of some type. Texts, paths, keys themselves and the
integers that fit 64 bits with sign are keys; every other type is refused by its name.
-/

namespace LeaseCache

/-- A type whose values are not accepted as keys. -/
inductive ForeignType where
  | nat64 | nat8 | int8 | int16 | nat16 | natWord | intWord | int128 | nat128
  | single | double | flag | character | unit | bytes | optionalInteger | optionalText
  | boxedText | borrowedPath | systemText | pair
  deriving DecidableEq, Repr

/-- The name by which a refused type is reported. -/
def ForeignType.name : ForeignType → String
  | .nat64 => "u64"
  | .nat8 => "u8"
  | .int8 => "i8"
  | .int16 => "i16"
  | .nat16 => "u16"
  | .natWord => "usize"
  | .intWord => "isize"
  | .int128 => "i128"
  | .nat128 => "u128"
  | .single => "f32"
  | .double => "f64"
  | .flag => "bool"
  | .character => "char"
  | .unit => "()"
  | .bytes => "alloc::vec::Vec<u8>"
  | .optionalInteger => "core::option::Option<i64>"
  | .optionalText => "core::option::Option<alloc::string::String>"
  | .boxedText => "alloc::boxed::Box<str>"
  | .borrowedPath => "&std::path::Path"
  | .systemText => "std::ffi::os_str::OsString"
  | .pair => "(i64, alloc::string::String)"

/-- A value offered as a key. -/
inductive DynamicKey where
  | text (value : String)
  | path (value : Path)
  | int64 (value : Int64)
  | int32 (value : Int32)
  | nat32 (value : UInt32)
  | key (value : Key)
  | foreign (type : ForeignType)
  deriving DecidableEq, Repr

/-- The key that a value is, or the type for which it is refused. -/
def DynamicKey.toKey : DynamicKey → Except ForeignType Key
  | .text s => .ok (.text s)
  | .path p => .ok (.path p)
  | .int64 n => .ok (.integer n)
  | .int32 n => .ok (.integer n.toInt64)
  | .nat32 n => .ok (.integer (Int64.ofInt n.toNat))
  | .key k => .ok k
  | .foreign t => .error t

end LeaseCache
