/-!
The closed word lists of the endpoint language: the verbs that open a method and the roles that a
structure can play in it.
-/

namespace EndpointDsl

inductive Verb
  | get
  | post
  | put
  | delete
  | patch
  | options
  | head
  deriving DecidableEq, Repr, Inhabited

namespace Verb

def all : List Verb := [get, post, put, delete, patch, options, head]

def name : Verb → String
  | get => "GET"
  | post => "POST"
  | put => "PUT"
  | delete => "DELETE"
  | patch => "PATCH"
  | options => "OPTIONS"
  | head => "HEAD"

/-- The verb in the spelling that identifiers use. -/
def lowerName : Verb → String
  | get => "get"
  | post => "post"
  | put => "put"
  | delete => "delete"
  | patch => "patch"
  | options => "options"
  | head => "head"

def ofName? (s : String) : Option Verb := all.find? (·.name == s)

theorem ofName?_name (v : Verb) : ofName? v.name = some v := by cases v <;> decide

theorem name_of_ofName? {s : String} {v : Verb} (h : ofName? s = some v) : v.name = s := by
  simpa using List.find?_some h

end Verb

/-- What a structure describes.  A structure without a role is only referenced by others. -/
inductive Role
  | header
  | request
  | response
  | reqRes
  | query
  deriving DecidableEq, Repr, Inhabited

namespace Role

def all : List Role := [header, request, response, reqRes, query]

def name : Role → String
  | header => "Header"
  | request => "Request"
  | response => "Response"
  | reqRes => "ReqRes"
  | query => "Query"

def ofName? (s : String) : Option Role := all.find? (·.name == s)

theorem ofName?_name (r : Role) : ofName? r.name = some r := by cases r <;> decide

theorem name_of_ofName? {s : String} {r : Role} (h : ofName? s = some r) : r.name = s := by
  simpa using List.find?_some h

end Role

end EndpointDsl
