import Recast.Text.Case
import Recast.Text.Blank

/-!
Patterns over text, and where they match. A pattern is tried from left to right with backtracking;
the matcher is handed what has still to match as a function, so a choice that fails later is taken
back.
-/

namespace Recast

/-- A class of characters with a name of its own. -/
inductive CharClass where
  | digit
  | space
  | word
  deriving DecidableEq

/-- A part of a character set: a range of code points, or a class or its complement. -/
inductive SetPart where
  | range (low high : Nat)
  | named (cls : CharClass) (negated : Bool)
  deriving DecidableEq

/-- How the letters of a set or a repeated group are compared. -/
structure Comparison where
  anyCase : Bool := false
  asciiOnly : Bool := false
  deriving DecidableEq

structure CharSet where
  parts : List SetPart
  negated : Bool
  how : Comparison

inductive Anchor where
  | start
  | startOfLine
  | finish
  | finishOrFeed
  | finishOfLine
  | boundary (asciiOnly : Bool)
  | inside (asciiOnly : Bool)
  deriving DecidableEq

inductive Greed where
  | greedy
  | lazy
  | possessive
  deriving DecidableEq

inductive Pattern where
  | empty
  | one (set : CharSet)
  | anchor (a : Anchor)
  | seq (p q : Pattern)
  | alt (p q : Pattern)
  | repeated (p : Pattern) (least : Nat) (most : Option Nat) (greed : Greed)
  | bundle (p : Pattern)
  | group (n : Nat) (p : Pattern)
  | atomic (p : Pattern)
  | same (n : Nat) (how : Comparison) (least most : Nat)
  | look (behind negated : Bool) (p : Pattern)
  | given (n : Nat) (yes no : Pattern)

namespace CharClass

def holds (asciiOnly : Bool) (cls : CharClass) (c : Char) : Bool :=
  match cls with
  | .digit => if asciiOnly then c.isDigit else Text.isDigit c
  | .space =>
    if asciiOnly then (9 ≤ c.toNat && c.toNat ≤ 13) || c = ' ' else Text.isBlank c
  | .word => if asciiOnly then Text.isAsciiWord c else Text.isWord c

end CharClass

/-- Letters that count as the same in either case although neither is the other's lower case. -/
def twins : List (Nat × Nat) :=
  [(0x69, 0x131), (0x73, 0x17f), (0xb5, 0x3bc), (0x345, 0x3b9), (0x345, 0x1fbe), (0x390, 0x1fd3),
    (0x3b0, 0x1fe3), (0x3b2, 0x3d0), (0x3b5, 0x3f5), (0x3b8, 0x3d1), (0x3b9, 0x1fbe),
    (0x3ba, 0x3f0), (0x3c0, 0x3d6), (0x3c1, 0x3f1), (0x3c2, 0x3c3), (0x3c6, 0x3d5),
    (0x432, 0x1c80), (0x434, 0x1c81), (0x43e, 0x1c82), (0x441, 0x1c83), (0x442, 0x1c84),
    (0x442, 0x1c85), (0x44a, 0x1c86), (0x463, 0x1c87), (0x1c88, 0xa64b), (0x1e61, 0x1e9b),
    (0xfb05, 0xfb06)]

namespace Comparison

/-- The lower-case letter and its twins. -/
def lowered (how : Comparison) (c : Char) : List Nat :=
  if how.asciiOnly then [c.toLower.toNat]
  else
    let n := (Text.lowerChar c).toNat
    n :: (twins.filterMap fun (a, b) => if a = n then some b else if b = n then some a else none)

def sameChar (how : Comparison) (c d : Char) : Bool :=
  c = d || (how.anyCase && (how.lowered c).contains (how.lowered d).head!)

/-- All capitals of a lower-case letter. -/
def capitals (how : Comparison) (n : Nat) : List Nat :=
  if how.asciiOnly || n < 128 then
    (if 97 ≤ n && n ≤ 122 then [n - 32] else []) ++
      (if how.asciiOnly then [] else if n = 107 then [0x212A] else if n = 105 then [0x130] else [])
  else Text.lowerRuns.filterMap fun (a, b, stride, image) =>
    let c := a + (n - image)
    if image ≤ n && c ≤ b && (n - image) % stride = 0 then some c else none

def variants (how : Comparison) (c : Char) : List Nat :=
  let low := how.lowered c
  c.toNat :: low ++ low.flatMap how.capitals

end Comparison

namespace CharSet

def partHolds (asciiOnly : Bool) (n : Nat) : SetPart → Bool
  | .range low high => low ≤ n && n ≤ high
  | .named cls negated => cls.holds asciiOnly (Char.ofNat n) != negated

def holds (set : CharSet) (c : Char) : Bool :=
  let candidates := if set.how.anyCase then set.how.variants c else [c.toNat]
  (candidates.any fun n => set.parts.any (partHolds set.how.asciiOnly n)) != set.negated

end CharSet

/-- A place in a text and the groups found so far, each from its start to its end. -/
structure Spot where
  place : Nat
  groups : List (Nat × Nat × Nat)

namespace Spot

def group? (s : Spot) (n : Nat) : Option (Nat × Nat) :=
  (s.groups.find? fun g => g.1 = n).map (·.2)

def setGroup (s : Spot) (n origin : Nat) : Spot :=
  { s with groups := (n, origin, s.place) :: s.groups.filter fun g => g.1 ≠ n }

end Spot

namespace Anchor

def wordAt (asciiOnly : Bool) (text : Array Char) (i : Nat) : Bool :=
  text[i]?.any (CharClass.word.holds asciiOnly)

def atBoundary (asciiOnly : Bool) (text : Array Char) (i : Nat) : Bool :=
  (0 < i && wordAt asciiOnly text (i - 1)) != wordAt asciiOnly text i

def holds (a : Anchor) (text : Array Char) (i : Nat) : Bool :=
  match a with
  | .start => i = 0
  | .startOfLine => i = 0 || text[i - 1]? = some '\n'
  | .finish => i = text.size
  | .finishOrFeed => i = text.size || (i + 1 = text.size && text[i]? = some '\n')
  | .finishOfLine => i = text.size || text[i]? = some '\n'
  | .boundary asciiOnly => 0 < text.size && atBoundary asciiOnly text i
  | .inside asciiOnly => 0 < text.size && !atBoundary asciiOnly text i

end Anchor

namespace Pattern

/-- The fewest and the most characters that a pattern can match. -/
def width : Pattern → Nat × Nat
  | .empty | .anchor _ | .look _ _ _ => (0, 0)
  | .one _ => (1, 1)
  | .seq p q => ((width p).1 + (width q).1, (width p).2 + (width q).2)
  | .alt p q => (min (width p).1 (width q).1, max (width p).2 (width q).2)
  | .repeated p least most _ =>
    ((width p).1 * least, match most with
      | some n => (width p).2 * n
      | none => if (width p).2 = 0 then 0 else Nat.pow 2 64)
  | .bundle p | .group _ p | .atomic p => width p
  | .same _ _ least most => (least, most)
  | .given _ yes no => (min (width yes).1 (width no).1, max (width yes).2 (width no).2)

/-- Every look to the left has a fixed width. -/
def lookFixed : Pattern → Bool
  | .empty | .anchor _ | .one _ | .same _ _ _ _ => true
  | .seq p q | .alt p q | .given _ p q => lookFixed p && lookFixed q
  | .repeated p _ _ _ | .bundle p | .group _ p | .atomic p => lookFixed p
  | .look behind _ p => lookFixed p && (!behind || (width p).1 = (width p).2)

abbrev Continuation := Spot → Option Spot

/-- One more round of a repeated pattern, or what follows it. A round that matches nothing is
the last one. -/
def rounds (step : Spot → Continuation → Option Spot) (least : Nat) (most : Option Nat)
    (eager : Bool) (done : Continuation) : Nat → Nat → Spot → Option Spot
  | 0, count, s => if least ≤ count then done s else none
  | fuel + 1, count, s =>
    let more (_ : Unit) : Option Spot :=
      if most.all (count < ·) then
        step s fun s' =>
          if s'.place = s.place && least ≤ count then done s'
          else rounds step least most eager done fuel (count + 1) s'
      else none
    if count < least then more ()
    else if eager then (more ()).orElse fun _ => done s
    else (done s).orElse more

def run (text : Array Char) : Pattern → Spot → Continuation → Option Spot
  | .empty, s, k => k s
  | .one set, s, k =>
    match text[s.place]? with
    | some c => if set.holds c then k { s with place := s.place + 1 } else none
    | none => none
  | .anchor a, s, k => if a.holds text s.place then k s else none
  | .seq p q, s, k => run text p s fun s' => run text q s' k
  | .alt p q, s, k => (run text p s k).orElse fun _ => run text q s k
  | .repeated p least most greed, s, k =>
    let fuel := least + (text.size - s.place) + 2
    match greed with
    | .greedy => rounds (run text p) least most true k fuel 0 s
    | .lazy => rounds (run text p) least most false k fuel 0 s
    | .possessive => (rounds (run text p) least most true some fuel 0 s).bind k
  | .bundle p, s, k => run text p s k
  | .group n p, s, k => run text p s fun s' => k (s'.setGroup n s.place)
  | .atomic p, s, k => (run text p s some).bind k
  | .same n how _ _, s, k =>
    match s.group? n with
    | none => none
    | some (low, high) =>
      let length := high - low
      if s.place + length ≤ text.size &&
          (List.range length).all fun i =>
            how.sameChar (text[low + i]?.getD 'x') (text[s.place + i]?.getD 'y')
      then k { s with place := s.place + length }
      else none
  | .look behind negated p, s, k =>
    let origin : Option Nat :=
      if behind then (if (width p).1 ≤ s.place then some (s.place - (width p).1) else none)
      else some s.place
    let found := origin.bind fun i => run text p { s with place := i } some
    match found, negated with
    | some s', false => k { s with groups := s'.groups }
    | none, true => k s
    | _, _ => none
  | .given n yes no, s, k => if (s.group? n).isSome then run text yes s k else run text no s k

/-- The pattern matches a beginning of the text. -/
def matchesStart (p : Pattern) (s : Text) : Bool := (run s.toArray p ⟨0, []⟩ some).isSome

end Pattern

end Recast
