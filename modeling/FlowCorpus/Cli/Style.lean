import FlowCorpus.Fault
import FlowCorpus.Number.Numeral
import FlowCorpus.Text.Blank
import FlowCorpus.Text.Case
import FlowCorpus.Text.Split

/-!
# Styles

How text is shown: attributes, colours and a link, in words. Styles with the same effect have one
normal form.
-/

set_option autoImplicit false

namespace FlowCorpus.Cli

open FlowCorpus.Number FlowCorpus.Text

def attributeNames : List String :=
  ["bold", "dim", "italic", "underline", "blink", "blink2", "reverse", "conceal", "strike",
    "underline2", "frame", "encircle", "overline"]

def attributeShorts : List (String × String) :=
  [("d", "dim"), ("b", "bold"), ("i", "italic"), ("u", "underline"), ("r", "reverse"),
    ("c", "conceal"), ("s", "strike"), ("uu", "underline2"), ("o", "overline")]

def attribute? (word : String) : Option String :=
  (attributeNames.find? (· == word)).or (attributeShorts.lookup word)

def colourNames : List String :=
  ("default black red green yellow blue magenta cyan white bright_black bright_red bright_green " ++
    "bright_yellow bright_blue bright_magenta bright_cyan bright_white grey0 gray0 navy_blue " ++
    "dark_blue blue3 blue1 dark_green deep_sky_blue4 dodger_blue3 dodger_blue2 green4 " ++
    "spring_green4 turquoise4 deep_sky_blue3 dodger_blue1 green3 spring_green3 dark_cyan " ++
    "light_sea_green deep_sky_blue2 deep_sky_blue1 spring_green2 cyan3 dark_turquoise " ++
    "turquoise2 green1 spring_green1 medium_spring_green cyan2 cyan1 dark_red deep_pink4 " ++
    "purple4 purple3 blue_violet orange4 grey37 gray37 medium_purple4 slate_blue3 royal_blue1 " ++
    "chartreuse4 dark_sea_green4 pale_turquoise4 steel_blue steel_blue3 cornflower_blue " ++
    "chartreuse3 cadet_blue sky_blue3 steel_blue1 pale_green3 sea_green3 aquamarine3 " ++
    "medium_turquoise chartreuse2 sea_green2 sea_green1 aquamarine1 dark_slate_gray2 " ++
    "dark_magenta dark_violet purple light_pink4 plum4 medium_purple3 slate_blue1 yellow4 " ++
    "wheat4 grey53 gray53 light_slate_grey light_slate_gray medium_purple light_slate_blue " ++
    "dark_olive_green3 dark_sea_green light_sky_blue3 sky_blue2 dark_sea_green3 " ++
    "dark_slate_gray3 sky_blue1 chartreuse1 light_green pale_green1 dark_slate_gray1 red3 " ++
    "medium_violet_red magenta3 dark_orange3 indian_red hot_pink3 medium_orchid3 " ++
    "medium_orchid medium_purple2 dark_goldenrod light_salmon3 rosy_brown grey63 gray63 " ++
    "medium_purple1 gold3 dark_khaki navajo_white3 grey69 gray69 light_steel_blue3 " ++
    "light_steel_blue yellow3 dark_sea_green2 light_cyan3 light_sky_blue1 green_yellow " ++
    "dark_olive_green2 dark_sea_green1 pale_turquoise1 deep_pink3 magenta2 hot_pink2 orchid " ++
    "medium_orchid1 orange3 light_pink3 pink3 plum3 violet light_goldenrod3 tan misty_rose3 " ++
    "thistle3 plum2 khaki3 light_goldenrod2 light_yellow3 grey84 gray84 light_steel_blue1 " ++
    "yellow2 dark_olive_green1 honeydew2 light_cyan1 red1 deep_pink2 deep_pink1 magenta1 " ++
    "orange_red1 indian_red1 hot_pink dark_orange salmon1 light_coral pale_violet_red1 " ++
    "orchid2 orchid1 orange1 sandy_brown light_salmon1 light_pink1 pink1 plum1 gold1 " ++
    "navajo_white1 misty_rose1 thistle1 yellow1 light_goldenrod1 khaki1 wheat1 cornsilk1 " ++
    "grey100 gray100 grey3 gray3 grey7 gray7 grey11 gray11 grey15 gray15 grey19 gray19 grey23 " ++
    "gray23 grey27 gray27 grey30 gray30 grey35 gray35 grey39 gray39 grey42 gray42 grey46 " ++
    "gray46 grey50 gray50 grey54 gray54 grey58 gray58 grey62 gray62 grey66 gray66 grey70 " ++
    "gray70 grey74 gray74 grey78 gray78 grey82 gray82 grey85 gray85 grey89 gray89 grey93 " ++
    "gray93").splitOn " "

/-- A style: the attributes that are turned on or off, the last word on one first, and the colours
of the text and behind it, and a link. -/
structure Style where
  attributes : List (String × Bool) := []
  colour : Option String := none
  background : Option String := none
  link : Option String := none

/-- What stands between two brackets around a text, if the text ends with the closing one. -/
def insideOf? (opening : String) (s : List Char) : Option (List Char) :=
  if opening.toList.isPrefixOf s && s.getLast? = some ')' then
    some ((s.drop opening.length).dropLast)
  else none

def maxShade : Int := 255

def isColourNumber (digits : List Char) : Bool :=
  1 ≤ digits.length && digits.length ≤ 3 && digits.all isDigit && digitsValue digits ≤ 255

/-- Whether a text has only decimal digits and commas. -/
def isShades (s : List Char) : Bool :=
  !s.isEmpty && s.all fun c => c == ',' || (decimalDigit? c).isSome

/-- Whether the parts of a colour are shades. A part without digits is no number. -/
def areShades (parts : List (List Char)) : Except Fault Bool :=
  if parts.length != 3 then .ok false
  else do
    let shades ← parts.mapM fun part =>
      match readInt? part with
      | some n => .ok n
      | none => .error (.notANumber (String.ofList part))
    return shades.all (· ≤ maxShade)

/-- Whether a word in lower case is a colour: a name, a number, or three parts. -/
def isColour (word : String) : Except Fault Bool :=
  let s := word.toList
  if colourNames.contains word then .ok true
  else if s.head? = some '#' then .ok (s.length = 7 && (s.drop 1).all isHexDigit)
  else
    match insideOf? "color(" s, insideOf? "rgb(" s with
    | some digits, _ => .ok (isColourNumber digits)
    | none, some parts => if isShades parts then areShades (split ',' parts) else .ok false
    | none, none => .ok false

def lowered (s : String) : String :=
  String.ofList (s.toList.map lower)

namespace Style

/-- The style that words describe from a style on; none when they describe no style. -/
def ofWords (style : Style) : List String → Except Fault (Option Style)
  | [] => .ok (some style)
  | word :: rest =>
    match lowered word, rest with
    | "on", colour :: rest => do
      let colour := lowered colour
      if ← isColour colour then ofWords { style with background := some colour } rest
      else return none
    | "not", trait :: rest =>
      match attribute? trait with
      | some name => ofWords { style with attributes := (name, false) :: style.attributes } rest
      | none => .ok none
    | "link", url :: rest => ofWords { style with link := some url } rest
    | word, rest =>
      if ["on", "not", "link"].contains word then .ok none
      else
        match attribute? word with
        | some name => ofWords { style with attributes := (name, true) :: style.attributes } rest
        | none => do
          if ← isColour word then ofWords { style with colour := some word } rest else return none

def words (style : Style) : List String :=
  let attributes := attributeNames.filterMap fun name =>
    (style.attributes.lookup name).map fun on => if on then name else "not " ++ name
  let background := match style.background with
    | some colour => ["on", colour]
    | none => []
  let link := match style.link with
    | some url => ["link", url]
    | none => []
  attributes ++ style.colour.toList ++ background ++ link

end Style

def wordsOf (s : List Char) : List String :=
  ((s.splitBy fun a b => isBlank a == isBlank b).filter fun word =>
    !word.all isBlank).map String.ofList

/-- The normal form of a style. A text that describes no style is its own normal form in lower
case. -/
def normalStyle (s : List Char) : Except Fault String := do
  let bare := String.ofList (trim s)
  if bare = "none" then return "none"
  else
    match ← Style.ofWords {} (wordsOf s) with
    | some style => return if style.words.isEmpty then "none" else " ".intercalate style.words
    | none => return lowered bare

end FlowCorpus.Cli
