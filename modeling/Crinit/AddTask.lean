import Crinit.Commands

/-! ADDTASK: the configuration of one task, with its dependencies replaced on the way. -/
namespace Crinit

/-- An element of `crinitConfKvList_t`, as `crinitIniHandler` fills it. -/
structure ConfKv where
  key : String
  val : String
  deriving DecidableEq, Repr

def keyDepends : String := "DEPENDS"

def ConfKv.isDepends (kv : ConfKv) : Bool := kv.key = keyDepends

def ConfKv.clearDepends (kv : ConfKv) : ConfKv := if kv.isDepends then { kv with val := "" } else kv

/-- The first DEPENDS gets the value, all later ones are emptied. -/
def setDepends (deps : String) : List ConfKv → List ConfKv
  | [] => []
  | kv :: rest =>
    if kv.isDepends then { kv with val := deps } :: rest.map ConfKv.clearDepends
    else kv :: setDepends deps rest

/-- The third argument of ADDTASK. -/
def overrideDeps (allocOk : Bool) (deps : String) (c : List ConfKv) : Option (List ConfKv) :=
  if deps = "@unchanged" then some c
  else if deps = "@empty" then some (c.map ConfKv.clearDepends)
  else if !allocOk then none
  else if c.any ConfKv.isDepends then some (setDepends deps c)
  else some (c ++ [⟨keyDepends, deps⟩])

structure AddTaskEnv where
  /-- The answer of `crinitParseConf`. -/
  conf : Option (List ConfKv)
  allocOk : Bool := true
  /-- `crinitTaskCreateFromConfKvList`, and what else the insertion of the task depends on. -/
  create : List ConfKv → Option (NewTask × InsertEnv)

def execRtimCmdAddTask (env : AddTaskEnv) (cmd : RtimCmd) : Handling RtimCmd := do
  match cmd.args with
  | [_, overwrite, deps] =>
    match env.conf with
    | none => return errAnswer .addTask "Could not parse given config."
    | some c =>
      match overrideDeps env.allocOk deps c with
      | none => return errAnswer .addTask "Could not set dependencies to given string."
      | some c =>
        match env.create c with
        | none => return errAnswer .addTask "Could not create task from config."
        | some (t, insert) =>
          if (← dbCall (.insert t (overwrite = "true") insert)) = -1 then
            return errAnswer .addTask "Could not insert new task into TaskDB."
          else return okAnswer .addTask
  | _ => return errAnswer .addTask "Wrong number of arguments."

end Crinit
