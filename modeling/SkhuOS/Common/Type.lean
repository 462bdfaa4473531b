import Mathlib.Data.Nat.Notation

/-! The fixed-width words of `common/Type.h`. -/
namespace SkhuOS

abbrev BYTE := BitVec 8
abbrev WORD := BitVec 16
abbrev DWORD := BitVec 32
abbrev QWORD := BitVec 64

end SkhuOS
