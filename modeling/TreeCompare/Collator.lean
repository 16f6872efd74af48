import TreeCompare.Name
import TreeCompare.Text.Lowercase
/-!
# Collators

A collator gives every name a key, and names are ordered by their keys. It
may fail on a name, and it may remember what it has been asked: `Collator`
carries a memory of any type, so that a collator that answers differently
from call to call is one too.

Two collators are given: `scalarValues`, by Unicode, and `locale`, the
C locale of the C library, by bytes. Both fold case by full Unicode
lower-casing.
-/

namespace TreeCompare

/-- The key of a name. Comparing keys compares the names they belong to. -/
structure SortKey where
  bytes : List UInt8
deriving DecidableEq, Repr

/-- The order of keys by their bytes. -/
def SortKey.order (a b : SortKey) : Ordering := compare a.bytes b.bytes

/-- Why a name has no key, or a collator cannot be had. -/
inductive KeyError where
  /-- The name, whose text is given, cannot be collated. -/
  | notText (text : String)
  /-- The collation rules cannot be used, for the reason given. -/
  | unavailable (reason : String)
deriving DecidableEq, Repr

/-- The text of a collation error. -/
def KeyError.message : KeyError → String
  | notText text => s!"invalid multibyte sequence in file name '{text}'"
  | unavailable reason => s!"collation unavailable: {reason}"

/-- A collator with memory `σ`: the key of a name, folding case if asked
to, and the memory afterwards. -/
structure Collator (σ : Type) where
  key : Name → (foldCase : Bool) → σ → Except KeyError SortKey × σ

namespace Collator

variable {σ : Type}

/-- A collator that answers by `key` and leaves the memory alone. -/
def ofKey (key : Name → Bool → Except KeyError SortKey) : Collator σ where
  key name foldCase memory := (key name foldCase, memory)

/-- The bytes that a case-insensitive key is made of: the lower-case form
of the name, which must be UTF-8. -/
def folded (name : Name) : Except KeyError (List UInt8) :=
  match Utf8.decode? name.bytes with
  | some text => .ok (Utf8.encode (LetterCase.lowercase text))
  | none => .error (.notText name.text)

/-- The key of a name by scalar values. Only UTF-8 has one. -/
def scalarKey (name : Name) (foldCase : Bool) : Except KeyError SortKey :=
  if foldCase then (folded name).map SortKey.mk
  else match Utf8.decode? name.bytes with
    | some _ => .ok ⟨name.bytes⟩
    | none => .error (.notText name.text)

/-- Collation by Unicode scalar values. -/
def scalarValues : Collator σ := ofKey scalarKey

end Collator

/-- The environment variables that choose a locale. -/
structure LocaleVariables where
  lcAll : Option String := none
  lcCollate : Option String := none
  lang : Option String := none
deriving DecidableEq, Repr

/-- The locale that the environment names: the first variable that is set
and not empty, else the C locale. -/
def LocaleVariables.chosen (vars : LocaleVariables) : String :=
  ([vars.lcAll, vars.lcCollate, vars.lang].filterMap id).find? (· ≠ "") |>.getD "C"

/-- The locale service of the C library: whether locales can be loaded at
all, whether the size it announces for a key is the size it then needs,
and the environment it reads. -/
structure LocaleService where
  loads : Bool := true
  keysKeepSize : Bool := true
  environment : LocaleVariables := {}
deriving DecidableEq, Repr

namespace LocaleService

/-- The locales whose rules are installed; the empty name stands for the
locale of the environment. -/
def isInstalled (service : LocaleService) (name : String) : Bool :=
  let name := if name = "" then service.environment.chosen else name
  name == "C" || name == "POSIX"

/-- The name of a locale whose rules can be used. A name that holds a NUL
character cannot be passed on. -/
def load (service : LocaleService) (name : String) : Except KeyError String :=
  if name.toList.contains (Char.ofNat 0) then
    .error (.unavailable s!"invalid locale name '{name}'")
  else if service.loads && service.isInstalled name then .ok name
  else .error (.unavailable s!"cannot load locale '{name}'")

end LocaleService

namespace Collator

variable {σ : Type}

/-- The key of a name in the C locale: its bytes, folded if asked to. The
bytes are passed on as a C string, so they hold no NUL. -/
def localeKey (service : LocaleService) (name : Name) (foldCase : Bool) :
    Except KeyError SortKey := do
  let bytes ← if foldCase then folded name else .ok name.bytes
  if bytes.contains 0 then .error (.notText name.text)
  else if service.keysKeepSize then .ok ⟨bytes⟩
  else .error (.unavailable
    s!"collation key of '{String.ofList (Utf8.lossy bytes)}' changed size")

/-- Collation under a locale of the C library. -/
def locale (service : LocaleService) : Collator σ := ofKey (localeKey service)

end Collator

/-- How the default collator was found: the locale of the environment, or
the C locale where that cannot be loaded, or scalar values where neither
can; with the errors met on the way. -/
inductive CollatorChoice where
  | environment
  | cLocale (environment : KeyError)
  | scalarValues (environment c : KeyError)
deriving DecidableEq, Repr

/-- The search for a locale when none is chosen. -/
def LocaleService.find (service : LocaleService) : CollatorChoice :=
  match service.load "" with
  | .ok _ => .environment
  | .error e =>
    match service.load "C" with
    | .ok _ => .cLocale e
    | .error e' => .scalarValues e e'

namespace CollatorChoice

/-- The name of the locale found, or why there is none. -/
def name : CollatorChoice → Except KeyError String
  | environment => .ok ""
  | cLocale _ => .ok "C"
  | scalarValues _ e => .error e

/-- The collator found. -/
def collator {σ : Type} (service : LocaleService) : CollatorChoice → Collator σ
  | environment | cLocale _ => Collator.locale service
  | scalarValues _ _ => Collator.scalarValues

end CollatorChoice

/-- A collator that follows a script: it counts its calls from 1 in its
memory, fails on the calls and names listed, gives every other name the
empty key when `constant`, and else asks `base`. -/
structure ScriptedCollator where
  base : Collator Nat
  failOn : List Nat
  failNames : List Name
  constant : Bool

/-- The collator that follows a script. -/
def ScriptedCollator.collator (script : ScriptedCollator) : Collator Nat where
  key name foldCase calls :=
    let call := calls + 1
    if script.failOn.contains call then (.error (.unavailable s!"call {call}"), call)
    else if script.failNames.contains name then (.error (.unavailable "refused name"), call)
    else if script.constant then (.ok ⟨[]⟩, call)
    else script.base.key name foldCase call

end TreeCompare
