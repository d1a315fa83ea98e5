/-!
# Hexadecimal text

`Hexadecimal.upper width n` is `n` in base 16 with capital letters, filled with zeros on the left
to at least `width` digits.
-/

namespace LiveHls.Text.Hexadecimal

/-- The digits of `n` in base 16, most significant first. -/
def digits (n : Nat) : List Char := Nat.toDigits 16 n

def upper (width n : Nat) : String :=
  let ds := (digits n).map Char.toUpper
  String.ofList (List.replicate (width - ds.length) '0' ++ ds)

example : upper 2 10 = "0A" := by decide
example : upper 1 255 = "FF" := by decide

end LiveHls.Text.Hexadecimal
