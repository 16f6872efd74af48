import TreeCompare.Exclusion.Glob
/-!
# Matching globs

A glob is matched against the bytes of a name. `Glob.rests` gives what can
be left of a text once a glob has taken its part from the front, and a
name matches when nothing can be left (`Glob.accepts`). No token but the
recursive ones takes a separator.
-/

namespace TreeCompare

namespace Exclusion

/-- The bytes that a class holds or spans, as ranges. A member is spelled
out in UTF-8; a range of members spans from the last byte of the one to the
first byte of the other. -/
def classBytes (ranges : List (Char × Char)) : List (UInt8 × UInt8) :=
  ranges.flatMap fun (low, high) =>
    if low = high then (String.utf8EncodeChar low).map fun b => (b, b)
    else
      let a := String.utf8EncodeChar low
      let b := String.utf8EncodeChar high
      a.dropLast.map (fun x => (x, x)) ++ [(a.getLastD 0, b.headD 0)] ++
        b.tail.map fun x => (x, x)

/-- Every end of a text, the text itself included. -/
def tails : List UInt8 → List (List UInt8)
  | [] => [[]]
  | b :: s => (b :: s) :: tails s

/-- What follows each separator of a text. -/
def afterSeparators : List UInt8 → List (List UInt8)
  | [] => []
  | b :: s => if b = Path.separator then s :: afterSeparators s else afterSeparators s

/-- What is left of a text after some bytes that are no separators. -/
def afterMany : List UInt8 → List (List UInt8)
  | [] => [[]]
  | b :: s => (b :: s) :: if b = Path.separator then [] else afterMany s

/-- What is left of `text` after `start`. -/
def dropStart : (start text : List UInt8) → List (List UInt8)
  | [], text => [text]
  | _ :: _, [] => []
  | a :: start, b :: text => if a = b then dropStart start text else []

mutual

/-- Whether a token stands for nothing at all: a group without an
alternative that stands for something. -/
def Token.isVoid : Token → Bool
  | .group alternatives => allVoid alternatives
  | _ => false

/-- Whether no token of a glob stands for anything. -/
def isVoid : List Token → Bool
  | [] => true
  | t :: glob => t.isVoid && isVoid glob

/-- Whether no alternative stands for anything. -/
def allVoid : List (List Token) → Bool
  | [] => true
  | glob :: alternatives => isVoid glob && allVoid alternatives

end

mutual

/-- What can be left of a text after a token. -/
def Token.rests : Token → List UInt8 → List (List UInt8)
  | .literal c, text => dropStart (String.utf8EncodeChar c) text
  | .any, text =>
    match text with
    | [] => []
    | b :: rest => if b = Path.separator then [] else [rest]
  | .many, text => afterMany text
  | .leadingDirs, text => text :: afterSeparators text
  | .allBelow, text =>
    match text with
    | [] => []
    | b :: rest => if b = Path.separator then tails rest else []
  | .innerDirs, text =>
    match text with
    | [] => []
    | b :: rest => if b = Path.separator then rest :: afterSeparators rest else []
  | .class negated ranges, text =>
    match text with
    | [] => []
    | b :: rest =>
      if (classBytes ranges).any (fun (low, high) => low ≤ b && b ≤ high) != negated then [rest]
      else []
  | .group alternatives, text =>
    if allVoid alternatives then [text] else (groupRests alternatives text).eraseDups

/-- What can be left of one of some texts after a glob. -/
def globRests : List Token → List (List UInt8) → List (List UInt8)
  | [], texts => texts
  | t :: glob, texts => globRests glob (texts.flatMap fun text => t.rests text).eraseDups

/-- What can be left of a text after an alternative that stands for
something. -/
def groupRests : List (List Token) → List UInt8 → List (List UInt8)
  | [], _ => []
  | glob :: alternatives, text =>
    (if isVoid glob then [] else globRests glob [text]) ++ groupRests alternatives text

end

/-- A glob of nothing but literal characters below the directories it may
lead with: the path it spells is looked up as it stands. -/
def Glob.isPlain (glob : Glob) : Bool :=
  glob.all Token.isLiteral || match glob with
    | .leadingDirs :: rest =>
      rest.all Token.isLiteral && rest.any fun | .literal c => c == '/' | _ => false
    | _ => false

/-- Whether a glob looks names up by an extension that is a bare dot. No
name has such an extension. -/
def Glob.wantsBareDot (glob : Glob) : Bool :=
  match glob.getLast? with
  | some (.literal c) => c == '.' && !glob.isPlain
  | _ => false

/-- A glob matches a name. -/
def Glob.accepts (glob : Glob) (name : List UInt8) : Bool :=
  match glob with
  | [.leadingDirs] => true
  | _ => !glob.wantsBareDot && (globRests glob [name]).contains []

end Exclusion

end TreeCompare
