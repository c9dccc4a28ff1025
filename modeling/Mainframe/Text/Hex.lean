/-! Hexadecimal numerals in lower case. -/

set_option autoImplicit false

namespace Mainframe

def hexDigits (number : Nat) : String := String.ofList (Nat.toDigits 16 number)

def hexPadded (width number : Nat) : String :=
  let digits := Nat.toDigits 16 number
  String.ofList (List.replicate (width - digits.length) '0' ++ digits)

def hexNumeral (number : Nat) : String := "0x" ++ hexDigits number

end Mainframe
