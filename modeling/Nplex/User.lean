import Nplex.Utils

/-!
# Users and their permissions

`user_t::is_authorized` of `user.cpp`. The glob matcher is a parameter here: nothing in the
permission check depends on which texts a pattern matches.
-/

namespace Nplex

/-- The type of `glob_match`: a text and a pattern. -/
abbrev Glob := Bytes → Bytes → Bool

/-- The operations that an access rule grants (`CRUD_xxx`): the right to write a new key. -/
def CRUD_CREATE : UInt8 := 0x02
/-- The right to write an existing key. -/
def CRUD_UPDATE : UInt8 := 0x04
/-- The right to remove a key. -/
def CRUD_DELETE : UInt8 := 0x08

/-- An access rule: the granted operations and the keys it speaks about. -/
structure Acl where
  mode : UInt8
  pattern : Bytes
  deriving DecidableEq, Repr

/-- The permissions a server grants at login. -/
structure User where
  name : Bytes
  permissions : List Acl
  canForce : Bool
  canMonitor : Bool
  deriving DecidableEq, Repr

/-- The first rule whose pattern matches decides, and must grant every requested operation. -/
def User.isAuthorized (globMatch : Glob) (user : User) (mode : UInt8) (key : Key) : Bool :=
  if mode == 0 then false
  else
    match user.permissions.find? fun acl => globMatch key (cStr acl.pattern) with
    | none => false
    | some acl => mode &&& acl.mode == mode

/-- The guard of the transaction methods: without a user everything is allowed. -/
def authorized (globMatch : Glob) (user : Option User) (mode : UInt8) (key : Key) : Bool :=
  match user with
  | none => true
  | some u => u.isAuthorized globMatch mode key

end Nplex
