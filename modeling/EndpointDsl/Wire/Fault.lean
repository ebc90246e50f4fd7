/-!
Why a value does not fit a type, and where in it.
-/

namespace EndpointDsl
namespace Wire

inductive Fault
  | missing
  | textWanted
  | textNotUtf8
  | bytesWanted
  | intWanted
  | intUnreadable
  | intOutOfRange
  | intFromFraction
  | notFinite
  | negative
  | floatWanted
  | floatUnreadable
  | boolWanted
  | boolUnreadable
  | dateTimeWanted
  | dateTimeUnreadable
  | dateTimeFromDateUnreadable
  | dateWanted
  | dateUnreadable
  | dateFromDateTimeUnreadable
  | dateNotMidnight
  | listWanted
  | modelWanted
  | nullWanted
  | nestedTooDeep
  | documentUnreadable
  /-- An enum value with no variant or several. -/
  | variantCount (className : String) (count : Nat)
  | payloadMissing (className attr : String)
  deriving DecidableEq, Repr, Inhabited

namespace Fault

/-- The name that programs know the fault by. -/
def name : Fault → String
  | missing => "missing"
  | textWanted => "string_type"
  | textNotUtf8 => "string_unicode"
  | bytesWanted => "bytes_type"
  | intWanted => "int_type"
  | intUnreadable => "int_parsing"
  | intOutOfRange => "int_parsing_size"
  | intFromFraction => "int_from_float"
  | notFinite => "finite_number"
  | negative => "greater_than_equal"
  | floatWanted => "float_type"
  | floatUnreadable => "float_parsing"
  | boolWanted => "bool_type"
  | boolUnreadable => "bool_parsing"
  | dateTimeWanted => "datetime_type"
  | dateTimeUnreadable => "datetime_parsing"
  | dateTimeFromDateUnreadable => "datetime_from_date_parsing"
  | dateWanted => "date_type"
  | dateUnreadable => "date_parsing"
  | dateFromDateTimeUnreadable => "date_from_datetime_parsing"
  | dateNotMidnight => "date_from_datetime_inexact"
  | listWanted => "list_type"
  | modelWanted => "model_type"
  | nullWanted => "none_required"
  | nestedTooDeep => "recursion_depth_exceeded"
  | documentUnreadable => "json_invalid"
  | variantCount _ _ => "value_error"
  | payloadMissing _ _ => "value_error"

/-- The message of a fault that says more than its name. -/
def message? : Fault → Option String
  | variantCount className count =>
    some s!"Value error, {className} expects exactly one variant, got {count}"
  | payloadMissing className attr =>
    some s!"Value error, variant '{attr}' of {className} requires a payload"
  | _ => none

end Fault

/-- One step into a value. -/
inductive Step
  | key (name : String)
  | index (position : Nat)
  deriving DecidableEq, Repr, Inhabited

structure Detail where
  fault : Fault
  path : List Step := []
  deriving DecidableEq, Repr, Inhabited

def Detail.under (step : Step) (d : Detail) : Detail := { d with path := step :: d.path }

/-- The outcome of checking a value: the value to keep, or every fault in order. -/
abbrev Checked (α : Type) := Except (List Detail) α

namespace Checked

def fault {α : Type} (f : Fault) : Checked α := .error [⟨f, []⟩]

def under {α : Type} (step : Step) : Checked α → Checked α
  | .ok a => .ok a
  | .error details => .error (details.map (·.under step))

/-- Both values, or the faults of both in order. -/
def both {α β : Type} : Checked α → Checked β → Checked (α × β)
  | .ok a, .ok b => .ok (a, b)
  | .ok _, .error e => .error e
  | .error d, .ok _ => .error d
  | .error d, .error e => .error (d ++ e)

end Checked

end Wire
end EndpointDsl
