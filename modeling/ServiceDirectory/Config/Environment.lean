import ServiceDirectory.Config.Setting
import ServiceDirectory.Decimal.Reader
import ServiceDirectory.Text.Digits

/-! # Settings from the environment

A variable whose name begins with `DISCOVERY__`, in any case, is a setting: the rest of the name is
its path, with a point for each `__`. Empty variables do not count. A value is a truth value, else a
whole number, else a number, else text.
-/

namespace ServiceDirectory.Environment

def leader : List Char := "discovery__".toList

/-- A point for each pair of low lines, from the left. -/
def withPoints : List Char → List Char
  | '_' :: '_' :: r => '.' :: withPoints r
  | c :: r => c :: withPoints r
  | [] => []

def keyOfName? (name : String) : Option String :=
  (leader.isPrefixOf? (SettingPath.lowerKey name).toList).map fun r => String.ofList (withPoints r)

def settingOfText (s : String) : Setting :=
  if s.toLower = "true" then .flag true
  else if s.toLower = "false" then .flag false
  else match Text.int64? s.toList with
    | some n => .whole n
    | none => match Decimal.Double.ofChars? s.toList with
      | some x => .real x
      | none => .text s

def settings (environment : List (String × String)) : List (String × Setting) :=
  environment.filterMap fun (name, value) =>
    if value.isEmpty then none else (keyOfName? name).map fun key => (key, settingOfText value)

end ServiceDirectory.Environment
