/-!
# A library for times: reading a format

A time format is text with directives. A directive is `%`, an optional flag, an optional width, up
to three colons, and a letter; `%.` with an optional width and `f` is the fraction of the second
behind a point. A format is cut into tokens from the left, and the first malformed directive ends
it.
-/

namespace LogLayout.Bundled.TimeFormat

/-- How a directive's text is padded or what its letters become. -/
inductive Flag where
  | spaces
  | zeros
  | unpadded
  | upper
  | swapped
  deriving DecidableEq, Repr

/-- What is wrong with a format. Letters are given by the first byte of their UTF-8 form. -/
inductive FormatError where
  | nothingAfterPercent
  | nothingAfterFlag (flag : Char)
  | widthTooLong
  | widthTooBig
  | nothingAfterWidth
  | nothingAfterColons
  | nothingAfterPoint
  | unknownLetter (byte : UInt8)
  | unknownLetterAfterPoint (byte : UInt8)
  | colonsBeforeZoneName
  | zeroPrecision (letter : Char)
  deriving DecidableEq, Repr

def hexDigit (n : Nat) : Char :=
  (Nat.digitChar n).toUpper

/-- A byte as a character that prints, or escaped. -/
def showByte (byte : UInt8) : String :=
  let n := byte.toNat
  if n = 0x09 then "\\t"
  else if n = 0x0A then "\\n"
  else if n = 0x0D then "\\r"
  else if n = 0x22 then "\\\""
  else if n = 0x27 then "\\'"
  else if n = 0x5C then "\\\\"
  else if 0x20 ≤ n && n ≤ 0x7E then String.singleton (Char.ofNat n)
  else String.ofList ['\\', 'x', hexDigit (n / 16), hexDigit (n % 16)]

def leadByte (c : Char) : UInt8 :=
  (String.utf8EncodeChar c).headD 0

def FormatError.message : FormatError → String
  | .nothingAfterPercent =>
    "invalid format string, expected byte after `%`, but found end of format string"
  | .nothingAfterFlag flag =>
    "expected to find specifier directive after flag `" ++ String.singleton flag ++
      "`, but found end of format string"
  | .widthTooLong =>
    "failed to parse conversion specifier width: number too big to parse into 64-bit integer"
  | .widthTooBig => "parsed width is too big, max is 255"
  | .nothingAfterWidth =>
    "expected to find specifier directive after parsed width, but found end of format string"
  | .nothingAfterColons =>
    "expected to find specifier directive after colons, but found end of format string"
  | .nothingAfterPoint => "invalid format string, expected directive after `%.`"
  | .unknownLetter byte => "found unrecognized specifier directive `" ++ showByte byte ++ "`"
  | .unknownLetterAfterPoint byte =>
    "found unrecognized specifier directive `" ++ showByte byte ++ "` following `%.`"
  | .colonsBeforeZoneName => "invalid number of `:` in `%Q` directive"
  | .zeroPrecision letter =>
    "%" ++ String.singleton letter ++ " failed: zero precision with %" ++
      String.singleton letter ++ " is not allowed"

structure Directive where
  flag : Option Flag
  width : Option Nat
  colons : Nat
  letter : Char
  deriving DecidableEq, Repr

inductive Token where
  | literal (c : Char)
  | directive (d : Directive)
  | pointFraction (width : Option Nat)
  | malformed (problem : FormatError)
  deriving DecidableEq, Repr

/-- The flag of that character. -/
def flag? : Char → Option Flag
  | '_' => some .spaces
  | '0' => some .zeros
  | '-' => some .unpadded
  | '^' => some .upper
  | '#' => some .swapped
  | _ => none

/-- Reads an optional flag; something has to follow it. -/
def readFlag : List Char → Except FormatError (Option Flag × List Char)
  | [] => .ok (none, [])
  | c :: rest =>
    match flag? c with
    | none => .ok (none, c :: rest)
    | some flag => if rest.isEmpty then .error (.nothingAfterFlag c) else .ok (some flag, rest)

/-- Reads an optional width of at most 255; something has to follow it. -/
def readWidth (cs : List Char) : Except FormatError (Option Nat × List Char) :=
  let digits := cs.takeWhile Char.isDigit
  let rest := cs.dropWhile Char.isDigit
  let width := Nat.ofDigitChars 10 digits 0
  if digits.isEmpty then .ok (none, cs)
  else if 1 <<< 63 ≤ width then .error .widthTooLong
  else if 255 < width then .error .widthTooBig
  else if rest.isEmpty then .error .nothingAfterWidth
  else .ok (some width, rest)

/-- Reads up to three colons; something has to follow them. -/
def readColons (cs : List Char) : Except FormatError (Nat × List Char) :=
  let colons := ((cs.take 3).takeWhile (· == ':')).length
  let rest := cs.drop colons
  if colons ≠ 0 && rest.isEmpty then .error .nothingAfterColons else .ok (colons, rest)

/-- Reads what follows `%.`. -/
def readPoint (cs : List Char) : Except FormatError (Token × List Char) := do
  if cs.isEmpty then throw .nothingAfterPoint
  let (width, rest) ← readWidth cs
  match rest with
  | 'f' :: rest => return (.pointFraction width, rest)
  | c :: _ => throw (.unknownLetterAfterPoint (leadByte c))
  | [] => throw .nothingAfterPoint

/-- Reads what follows `%`. -/
def readDirective (cs : List Char) : Except FormatError (Token × List Char) := do
  if cs.isEmpty then throw .nothingAfterPercent
  let (flag, cs) ← readFlag cs
  let (width, cs) ← readWidth cs
  let (colons, cs) ← readColons cs
  match cs with
  | '.' :: rest => readPoint rest
  | letter :: rest => return (.directive ⟨flag, width, colons, letter⟩, rest)
  | [] => throw .nothingAfterPercent

/-! ## What is left is shorter -/

theorem readFlag_length {cs rest : List Char} {flag : Option Flag}
    (h : readFlag cs = .ok (flag, rest)) : rest.length ≤ cs.length := by
  unfold readFlag at h
  split at h
  · cases h; exact Nat.le_refl _
  · split at h
    · cases h; exact Nat.le_refl _
    · split at h
      · cases h
      · cases h; exact Nat.le_succ _

theorem readWidth_length {cs rest : List Char} {width : Option Nat}
    (h : readWidth cs = .ok (width, rest)) : rest.length ≤ cs.length := by
  have hd := (List.dropWhile_suffix Char.isDigit (l := cs)).length_le
  simp only [readWidth] at h
  repeat' split at h
  all_goals cases h
  · exact Nat.le_refl _
  · exact hd

theorem readColons_length {cs rest : List Char} {colons : Nat}
    (h : readColons cs = .ok (colons, rest)) : rest.length ≤ cs.length := by
  simp only [readColons] at h
  split at h
  · cases h
  · cases h; rw [List.length_drop]; exact Nat.sub_le _ _

theorem readPoint_length {cs rest : List Char} {token : Token}
    (h : readPoint cs = .ok (token, rest)) : rest.length < cs.length := by
  simp only [readPoint, bind, Except.bind, throw, throwThe, MonadExceptOf.throw, pure,
    Except.pure] at h
  split at h
  · cases h
  · split at h
    · cases h
    · rename_i v hw
      have := readWidth_length hw
      split at h
      · rename_i r hr
        cases h
        rw [hr, List.length_cons] at this
        exact this
      · cases h
      · cases h

theorem readDirective_length {cs rest : List Char} {token : Token}
    (h : readDirective cs = .ok (token, rest)) : rest.length < cs.length := by
  simp only [readDirective, bind, Except.bind, throw, throwThe, MonadExceptOf.throw, pure,
    Except.pure] at h
  split at h
  · cases h
  · split at h
    · cases h
    · rename_i v1 h1
      split at h
      · cases h
      · rename_i v2 h2
        split at h
        · cases h
        · rename_i v3 h3
          have l1 := readFlag_length h1
          have l2 := readWidth_length h2
          have l3 := readColons_length h3
          split at h
          · rename_i r hr
            have := readPoint_length h
            rw [hr, List.length_cons] at l3
            omega
          · rename_i r hr
            cases h
            rw [hr, List.length_cons] at l3
            omega
          · cases h

/-- The tokens of a format; a malformed directive is the last of them. -/
def tokens : List Char → List Token
  | [] => []
  | '%' :: rest =>
    match _h : readDirective rest with
    | .error problem => [.malformed problem]
    | .ok (token, rest') => token :: tokens rest'
  | c :: rest => .literal c :: tokens rest
termination_by cs => cs.length
decreasing_by
  · have := readDirective_length _h
    simp only [List.length_cons]
    omega
  · simp

end LogLayout.Bundled.TimeFormat
