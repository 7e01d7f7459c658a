import Localizer.Text.WidthRanges

/-!
# Display width

How many columns a terminal gives to a character and to a text. Combining marks
and characters without a look of their own take none, wide ideographs and emoji
two. A sequence of characters that makes one emoji takes two columns together,
and letters that join take the columns of their ligature.

A text is measured from its end: what a character adds depends on what stands
behind it.
-/

namespace Localizer.Text

def isControl (c : Char) : Bool := c.toNat < 0x20 || (0x7F ≤ c.toNat && c.toNat < 0xA0)

/-- The width of a character that is no control character. -/
def charWidth (c : Char) : Nat :=
  if c.toNat < 0x7F then 1
  else if c == '\u17D8' then 3
  else if zeroWidthRanges.contains c then 0
  else if wideRanges.contains c then 2
  else 1

def isTone (c : Char) : Bool := 0x1F3FB ≤ c.toNat && c.toNat ≤ 0x1F3FF

/-- A letter of which two make a flag. -/
def isFlagLetter (c : Char) : Bool := 0x1F1E6 ≤ c.toNat && c.toNat ≤ 0x1F1FF

def isTagLetter (c : Char) : Bool := 0xE0061 ≤ c.toNat && c.toNat ≤ 0xE007A

def isTagDigit (c : Char) : Bool := 0xE0030 ≤ c.toNat && c.toNat ≤ 0xE0039

/-- Whether a character by itself is shown as an emoji. -/
def isEmoji (c : Char) : Bool := emojiRanges.contains c && wideRanges.contains c

/-- Whether a character is an emoji that takes one column where it is asked to be text. -/
def isTextBase (c : Char) : Bool :=
  variationBaseRanges.contains c && emojiRanges.contains c &&
    !(0x1F200 ≤ c.toNat && c.toNat ≤ 0x1F2FF)

/-- Whether Arabic letters join over a character. -/
def isPassedOver (c : Char) : Bool := zeroWidthRanges.contains c && !unjoinedRanges.contains c

/-! ## What stands behind a character -/

/-- What ends a ligature; all but the Arabic ones. -/
inductive LigatureEnd
  | lamed
  | subjoined
  | ya
  /-- A vowel sign, a joiner and the letter ya. -/
  | vowelYa
  | tifinagh
  /-- A consonant joiner and a consonant. -/
  | joinedTifinagh
  | lisuTone
  | orkhonI
  | kiratRaiE
  | kiratRaiAi
  deriving DecidableEq, Repr

/-- What stands behind a character, so far as its width depends on it. -/
inductive Follower
  | plain
  | lineFeed
  | emoji
  | tone
  | flagLetter
  | flagLetters
  /-- A joiner and an emoji. -/
  | joinedEmoji
  /-- A keycap, a joiner and an emoji. -/
  | joinedKeycap
  /-- A flag letter, a joiner and an emoji; then more flag letters, an even or an odd number. -/
  | joinedFlagLetter
  | joinedEven
  | joinedOdd
  /-- Letters and a terminator that make a tagged flag, joined to an emoji. -/
  | tagLetters (count : Nat)
  /-- The same with digits in front of the letters. -/
  | tagDigits (count : Nat)
  | alef
  | ligature (last : LigatureEnd) (isJoined : Bool)
  deriving DecidableEq, Repr

inductive Look
  | emoji
  | text
  deriving DecidableEq, Repr

/-- What stands behind a character, and the look that a variation selector asks of it. -/
structure Behind where
  follower : Follower
  look : Option Look := none
  deriving DecidableEq, Repr

/-- What joins a ligature's end: the columns the character adds, and what it makes of the end. -/
def LigatureEnd.join? (last : LigatureEnd) (isJoined : Bool) (c : Char) : Option (Int × Follower) :=
  match last with
  | .lamed => if isJoined && c == '\u05D0' then some (0, .plain) else none
  | .subjoined => if c == '\u17D2' then some (-1, .plain) else none
  | .ya => if isJoined && c == '\u1A17' then some (0, .ligature .vowelYa true) else none
  | .vowelYa => if c == '\u1A15' then some (0, .plain) else none
  | .tifinagh =>
    if c == '\u2D7F' then some (1, .ligature .joinedTifinagh true)
    else if isJoined && tifinaghRanges.contains c then some (0, .plain)
    else none
  | .joinedTifinagh => if tifinaghRanges.contains c then some (-1, .plain) else none
  | .lisuTone => if 0xA4F8 ≤ c.toNat && c.toNat ≤ 0xA4FB then some (0, .plain) else none
  | .orkhonI => if isJoined && c.toNat == 0x10C32 then some (0, .plain) else none
  | .kiratRaiE =>
    if c.toNat == 0x16D63 || c.toNat == 0x16D69 then some (0, .plain)
    else if c.toNat == 0x16D67 then some (0, .ligature .kiratRaiAi false)
    else if c.toNat == 0x16D68 then some (1, .ligature .kiratRaiE false)
    else none
  | .kiratRaiAi => if c.toNat == 0x16D63 then some (0, .plain) else none

/-- The ligature's end that a character is by itself. -/
def LigatureEnd.ofChar? (c : Char) : Option LigatureEnd :=
  if c == '\u05DC' then some .lamed
  else if subjoinedRanges.contains c then some .subjoined
  else if c == '\u1A10' then some .ya
  else if tifinaghRanges.contains c then some .tifinagh
  else if c == '\uA4FC' || c == '\uA4FD' then some .lisuTone
  else if c.toNat == 0x10C03 then some .orkhonI
  else if c.toNat == 0x16D67 then some .kiratRaiE
  else if c.toNat == 0x16D68 then some .kiratRaiAi
  else none

namespace Follower

/-- What is joined by a character in front of it: the columns the character adds, and what it makes
of it. -/
def join? (c : Char) : Follower → Option (Int × Follower)
  | plain => none
  | lineFeed => if c == '\r' then some (0, plain) else none
  | emoji => if c == '\u200D' then some (0, joinedEmoji) else none
  | tone =>
    if c == '\u200D' then some (0, joinedEmoji)
    else if toneBaseRanges.contains c then some (0, emoji)
    else none
  | flagLetter => if isFlagLetter c then some (1, flagLetters) else none
  | flagLetters =>
    if c == '\u200D' then some (0, joinedEmoji)
    else if isFlagLetter c then some (1, flagLetters)
    else none
  | joinedEmoji =>
    if c == '\u20E3' then some (0, joinedKeycap)
    else if isFlagLetter c then some (1, joinedFlagLetter)
    else if isTone c then some (0, tone)
    else if c.toNat == 0xE007F then some (0, tagLetters 0)
    else if isEmoji c then some (0, emoji)
    else none
  | joinedKeycap => none
  | joinedFlagLetter => if isFlagLetter c then some (-1, joinedEven) else none
  | joinedEven =>
    if c == '\u200D' then some (0, joinedEmoji)
    else if isFlagLetter c then some (3, joinedOdd)
    else none
  | joinedOdd =>
    if c == '\u200D' then some (0, joinedEmoji)
    else if isFlagLetter c then some (-1, joinedEven)
    else none
  | tagLetters count =>
    if isTagLetter c && count < 6 then some (0, tagLetters (count + 1))
    else if isTagDigit c && count < 5 then some (0, tagDigits 1)
    else if c.toNat == 0x1F3F4 && 3 ≤ count then some (0, emoji)
    else none
  | tagDigits count =>
    if isTagDigit c && count < 3 then some (0, tagDigits (count + 1))
    else if c.toNat == 0x1F3F4 && count == 3 then some (0, emoji)
    else none
  | alef =>
    if lamRanges.contains c then some (0, plain)
    else if isPassedOver c then some (0, alef)
    else none
  | ligature last isJoined =>
    if c == '\u200D' then some (0, ligature last true)
    else if ignorableMarkRanges.contains c then some (0, ligature last isJoined)
    else last.join? isJoined c

/-- What a character is to the one in front of it, if nothing behind it matters. -/
def ofChar (c : Char) : Follower :=
  if c == '\n' then lineFeed
  else if isFlagLetter c then flagLetter
  else if isTone c then tone
  else if isEmoji c then emoji
  else if alefRanges.contains c then alef
  else ((LigatureEnd.ofChar? c).map (ligature · false)).getD plain

/-- What is left behind a character that a variation selector stands in front of in vain. -/
def letters : Follower → Follower
  | alef => alef
  | ligature last isJoined => ligature last isJoined
  | _ => plain

/-- What stands behind a selector for the emoji look. -/
def selected : Follower → Follower
  | joinedEmoji => joinedEmoji
  | joinedKeycap => joinedKeycap
  | f => f.letters

end Follower

/-- The columns of a character by itself. A control character takes one. -/
def columns (c : Char) : Nat := if isControl c then 1 else charWidth c

/-- The columns that a character adds in front of what no selector changes, and what it makes of it. -/
def widthBefore (c : Char) (f : Follower) : Int × Behind :=
  if c == '\uFE0F' then (0, { follower := f.selected, look := some .emoji })
  else if c == '\uFE0E' then (0, { follower := f.letters, look := some .text })
  else
    match f.join? c with
    | some (width, joined) => (width, { follower := joined })
    | none => (columns c, { follower := .ofChar c })

/-- The columns that a character adds in front of what stands behind it, and what it makes of it. -/
def widthInFront (c : Char) (b : Behind) : Int × Behind :=
  if b.look == some .emoji && variationBaseRanges.contains c then
    (if b.follower == .joinedEmoji || b.follower == .joinedKeycap then 0 else 2,
      { follower := .emoji })
  else if b.look == some .text && isTextBase c then (1, { follower := .plain })
  else widthBefore c (if b.look == none then b.follower else b.follower.letters)

/-- The columns of a text, and what it is to a character in front of it. -/
def measure : List Char → Int × Behind
  | [] => (0, { follower := .plain })
  | c :: s =>
    let (width, behind) := measure s
    let (added, next) := widthInFront c behind
    (width + added, next)

/-- The width of a text. A line end takes one column. -/
def textWidth (s : List Char) : Nat := (measure s).1.toNat

end Localizer.Text
