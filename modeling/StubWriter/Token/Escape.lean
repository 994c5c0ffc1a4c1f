import StubWriter.Text.Numeral

/-!
# Escaped characters

Before a text is cut into tokens, a backslash with one or more `u` and four hexadecimal places
becomes the character of that number. A backslash protects the character behind it, so a doubled
backslash starts no escape. The places are read as a hexadecimal numeral.
-/

namespace StubWriter.Token

/-- The character of an escape. Half of a surrogate pair is no character: it is kept as U+FFFF,
which like it belongs to no class of characters that a token may start with. -/
def charOfCode (n : Nat) : Char :=
  if h : n.isValidChar then Char.ofNatAux n h else '\uffff'

/-- Replaces the escapes of a text, or returns the places of the first one that is no numeral.
`seen` holds, in reverse, what was read since the last escape: an escape that breaks off at the end
of the text, before its places, makes the text go on from there a second time. -/
def unescape (seen : List Char) : List Char → Except (List Char) (List Char)
  | [] => .ok seen.reverse
  | ['\\'] => .ok ('\\' :: seen).reverse
  | '\\' :: c :: rest =>
    if c = 'u' then
      let places := rest.dropWhile (· == 'u')
      if places.isEmpty then .ok (seen.reverse ++ seen.reverse ++ '\\' :: c :: rest)
      else
        match Text.hexadecimal? (places.take 4) with
        | none => .error (places.take 4)
        | some n => (unescape [] (places.drop 4)).map fun tail =>
            seen.reverse ++ charOfCode n.toNat :: tail
    else unescape (c :: '\\' :: seen) rest
  | c :: rest => unescape (c :: seen) rest
termination_by cs => cs.length
decreasing_by
  · have := (List.dropWhile_sublist (· == 'u') (l := rest)).length_le
    simp only [List.length_drop, List.length_cons]
    omega
  · simp only [List.length_cons]
    omega
  · simp

end StubWriter.Token
