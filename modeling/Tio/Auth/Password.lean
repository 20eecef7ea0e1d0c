import Tio.Thing.Acl

namespace Tio.Auth

open Tio.Thing

structure Thing where
  id : String
  enabled : Bool
  authValue : String
deriving DecidableEq

structure ConnectParams where
  username : String
  password : String
  clientIdentifier : String
  clean : Bool
deriving DecidableEq

/-- The rows are in the order of their ids. A zero primary key is no condition of the
statement, so the first row answers it. -/
def getThing (id : String) (things : List Thing) : Option Thing :=
  if id = "" then things.head? else things.find? fun th => th.id == id

/-- `get` has no thing when there is none, and when the database does not answer. -/
def authzMqttClient (superUsers : List UserPassword) (get : String → Option Thing)
    (connParams : ConnectParams) : Bool :=
  if superUsers.any fun u => connParams.username == u.name && connParams.password == u.password then true
  else
    match get connParams.username with
    | none => false
    | some th =>
      if !th.enabled then false
      else if th.authValue == connParams.password then
        if !connParams.clean then false else true
      else false

/-- The service over the rows, as far as the database answers. -/
def thingSvcGet (things : List Thing) (answered : Bool) (id : String) : Option Thing :=
  if answered then getThing id things else none

/-- The broker gives a client without an id the assigned one. -/
def clientIdOf (connParams : ConnectParams) (assigned : String) : String :=
  if connParams.clientIdentifier = "" then assigned else connParams.clientIdentifier

end Tio.Auth
