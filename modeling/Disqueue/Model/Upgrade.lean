import Disqueue.Model.Program

/-!
# The strings of an upgrade

`evws_upgrade_http_cb_` again, with what each `char *` points to when it is used
as a string, in order: the headers that are copied, searched, read as a number
or hashed, and what `fprintf` prints with `%s`. A copy is printed after it was
freed, and a header after it was found to be missing.
-/

namespace DQ.Model.Watched

/-- What a `char *` points to. -/
inductive StringPtr
  | string (s : CStr)
  /-- What `evhttp_find_header` returns if there is no such header. -/
  | missing
  /-- What an allocation that fails returns. -/
  | null
  /-- A copy that was freed. -/
  | freed
deriving DecidableEq

/-- `strdup`. -/
def strdup (ok : Bool) (s : CStr) : StringPtr := if ok then .string s else .null

/-- The pointer to a copy, after it was freed unless it is null. -/
def StringPtr.free : StringPtr → StringPtr
  | .null => .null
  | _ => .freed

/-- Whether the copies list what an upgrade needs, and the strings used. -/
def listsUpgrade : StringPtr → StringPtr → Bool × List StringPtr
  | .string upgrade, .string connection =>
    if !headerContains upgrade websocketToken then (false, [.string upgrade])
    else (headerContains connection upgradeHeader, [.string upgrade, .string connection])
  | _, _ => (false, [])

section
variable (dm : DataModel) (bioRead : CStr → List Char)

/-- `evws_upgrade_http_cb_`, from the check of the key on. -/
def upgradeKey (g : Guard) (a : Option Nat) (r : Asked) (p : Program) : Program × List StringPtr :=
  match evhttpFindHeader r.headers keyHeader with
  | none => (p.sendError 400, [.missing])
  | some key =>
    match upgradecb bioRead g a r p with
    | (p, false) => (p, [])
    | (p, true) =>
      if !r.upgrade .acceptKey then (p.sendError 500, [.string key, .null])
      else
        let p : Program := { p with answers := p.answers ++ [.switching p.server.next] }
        if r.upgrade .connection && r.upgrade .takeOwnership && r.upgrade .wslayContext then
          ({ p with server := p.server.step dm .opened }, [.string key])
        else (p.sendError 500, [.string key])

/-- `evws_upgrade_http_cb_`, from the check of the version on. -/
def upgradeVersion (g : Guard) (a : Option Nat) (r : Asked) (p : Program) :
    Program × List StringPtr :=
  match evhttpFindHeader r.headers versionHeader with
  | none => (p.sendError 400, [.missing])
  | some version =>
    if atoi dm version != 13 then (p.sendError 400, [.string version, .string version])
    else
      let (p, used) := upgradeKey dm bioRead g a r p
      (p, .string version :: used)

/-- `evws_upgrade_http_cb_`. A missing header ends the program in `strdup`. -/
def evwsUpgradeHttpCb_ (g : Guard) (a : Option Nat) (r : Asked) (p : Program) :
    Program × List StringPtr :=
  match evhttpFindHeader r.headers upgradeHeader, evhttpFindHeader r.headers connectionHeader with
  | none, _ => (p.nullPointer, [.missing])
  | some upgrade, none => (p.nullPointer, [.string upgrade, .missing])
  | some upgrade, some connection =>
    let upgradeCopy := strdup (r.upgrade .upgradeHeader) upgrade
    let connectionCopy := strdup (r.upgrade .connectionHeader) connection
    let (listed, used) := listsUpgrade upgradeCopy connectionCopy
    let used := .string upgrade :: .string connection :: used
    if !listed then (p.sendError 400, used ++ [upgradeCopy.free, connectionCopy.free])
    else if r.request.method != .get || reqVersionBefore r.version (1, 1) then (p.sendError 400, used)
    else
      let (p, used') := upgradeVersion dm bioRead g a r p
      (p, used ++ used')

end

end DQ.Model.Watched
