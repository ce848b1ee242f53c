/-!
# Machine integer widths

The largest (and, when signed, the smallest) values of the integer types of the program.
-/

namespace Nortia

abbrev u16Max : Nat := 65535
abbrev u32Max : Nat := 4294967295
abbrev u64Max : Nat := 18446744073709551615
abbrev u128Max : Nat := 340282366920938463463374607431768211455
abbrev i32Min : Int := -2147483648
abbrev i32Max : Int := 2147483647
abbrev i64Min : Int := -9223372036854775808
abbrev i64Max : Int := 9223372036854775807
abbrev i128Min : Int := -170141183460469231731687303715884105728
abbrev i128Max : Int := 170141183460469231731687303715884105727

end Nortia
