/-!
# ASCII letter case

Names of levels, options and time zones are compared up to the case of the letters `A`–`Z`;
every other character stands for itself.
-/

namespace LogLayout.Text

/-- The text with `A`–`Z` in lower case. -/
def lowerCase (s : String) : String :=
  String.ofList (s.toList.map Char.toLower)

/-- The text with `a`–`z` in upper case. -/
def upperCase (s : String) : String :=
  String.ofList (s.toList.map Char.toUpper)

/-- Whether two texts agree up to ASCII letter case. -/
def sameName (a b : String) : Bool :=
  lowerCase a == lowerCase b

end LogLayout.Text
