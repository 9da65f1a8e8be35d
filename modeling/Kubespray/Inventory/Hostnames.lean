import Kubespray.Inventory.State
import Kubespray.Lib.IpAddress
import Mathlib.Data.List.Infix

/-! From the arguments of the inventory builder to the hosts they leave: range2ips and
build_hostnames. -/
namespace Kubespray.Inventory

/-- `host.strip()` -/
def strip (t : CharTables) (cs : List Char) : List Char :=
  ((cs.dropWhile t.isspace).reverse.dropWhile t.isspace).reverse

/-- `ips(start_address, end_address)`; none where ip_address raises a ValueError. -/
def ips (start stop : String) : Option (List String) := do
  let a ← IPAddress.read start
  let b ← IPAddress.read stop
  (List.range' a.toInt (b.toInt + 1 - a.toInt)).mapM fun n => (IPAddress.ofInt n).map (·.exploded)

/-- One argument of range2ips. -/
def rangeOf (t : CharTables) (host : String) : Except PyError (List String) :=
  if '-' ∈ host.toList ∧ host.toList.head? ≠ some '-' ∧ ¬ (host.toList.head?.any t.isalpha) then
    match splitChar '-' (strip t host.toList) with
    | [start, stop] =>
      match ips (String.ofList start) (String.ofList stop) with
      | some addresses => .ok addresses
      | none => .error (.exception ["Range of ip_addresses isn't valid"])
    | _ => .error (.valueError "too many values to unpack (expected 2)")
  else .ok [host]

def range2ips (t : CharTables) (hosts : List String) : Except PyError (List String) :=
  (hosts.mapM (rangeOf t)).map List.flatten

/-- The digits at the end of the text; `$` also matches before a final line feed. -/
def finalDigits (t : CharTables) (cs : List Char) : List Nat :=
  let back := match cs.reverse with
    | '\n' :: rest => rest
    | rest => rest
  ((back.takeWhile fun c => (t.decimal c).isSome).filterMap t.decimal).reverse

def getHostId (t : CharTables) (host : String) : Except PyError Nat :=
  let shortHostname := host.toList.takeWhile (· ≠ '.')
  match finalDigits t shortHostname with
  | [] => .error (.valueError "Host name must end in an integer")
  | digits => .ok (digits.foldl (fun n d => 10 * n + d) 0)

/-- get_ip_from_opts: options are meant to be a mapping; `'ip' in optstring` is also
defined for lists and strings, subscripting by 'ip' is not. -/
def getIpFromOpts : Value → Except PyError Value
  | .obj fields =>
    match fields.lookup "ip" with
    | some ip => .ok ip
    | none => .error (.valueError "IP parameter not found in options")
  | .arr items =>
    if items.any (Value.isStr "ip") then .error .typeError
    else .error (.valueError "IP parameter not found in options")
  | .str s =>
    if "ip".toList <:+: s.toList then .error .typeError
    else .error (.valueError "IP parameter not found in options")
  | _ => .error .typeError

/-- The first host whose options have the ip, as the loops of exists_ip and
delete_host_by_ip find it. -/
def findIp (ip : String) : List (String × Value) → Except PyError (Option String)
  | [] => .ok none
  | (hostname, opts) :: rest => do
    let value ← getIpFromOpts opts
    if value.isStr ip then .ok (some hostname) else findIp ip rest

def existsHostname (existing : HostMap) (hostname : String) : Bool := hostname ∈ existing.keys

def existsIp (existing : HostMap) (ip : String) : Except PyError Bool :=
  (findIp ip existing.entries).map Option.isSome

def deleteHostByIp (existing : HostMap) (ip : String) : Except PyError HostMap := do
  match ← findIp ip existing.entries with
  | some hostname => .ok (existing.erase hostname)
  | none => .error (.valueError ("Unable to find host by IP: " ++ ip))

/-- The stored hosts up to and with the first whose name has no id, and the highest id;
what ends the loop is swallowed. -/
def scanExisting (t : CharTables) : List (String × Value) → HostMap → Nat → HostMap × Nat
  | [], existing, highest => (existing, highest)
  | (host, opts) :: rest, existing, highest =>
    match getHostId t host with
    | .error _ => (existing.setItem host opts, highest)
    | .ok id => scanExisting t rest (existing.setItem host opts) (max highest id)

def existingHosts (t : CharTables) : HostsKey → HostMap × Nat
  | .mapping d => scanExisting t d.entries ∅ 0
  | _ => (∅, 0)

/-- The local variables of the loop over changed_hosts; those that an earlier argument may
have bound are none until then. -/
structure Scan where
  allHosts : HostMap
  nextHostId : Nat
  hostname : Option String
  ip : Option String
  accessIp : Option String

def readLocal (name : String) : Option String → Except PyError String
  | some v => .ok v
  | none => .error (.unboundLocalError name)

def hostOpts (ip accessIp : String) : Value :=
  .obj [("ansible_host", .str accessIp), ("ip", .str ip), ("access_ip", .str accessIp)]

def unpackError : PyError := .valueError "too many values to unpack (expected 2)"

/-- `-name` or `-ip` -/
def deleteHost (st : Scan) (realhost : String) : Except PyError Scan :=
  if existsHostname st.allHosts realhost then
    .ok { st with allHosts := st.allHosts.erase realhost }
  else do
    let known ← existsIp st.allHosts realhost
    if known then
      let hosts ← deleteHostByIp st.allHosts realhost
      .ok { st with allHosts := hosts }
    else .ok st

/-- `ip` or `ip,access_ip` -/
def addAddress (s : Settings) (st : Scan) (host : String) : Except PyError Scan := do
  let (ip, accessIp) ←
    if ',' ∈ host.toList then
      match splitChar ',' host.toList with
      | [ip, accessIp] => Except.ok (String.ofList ip, String.ofList accessIp)
      | _ => .error unpackError
    else .ok (host, host)
  let st := { st with ip := some ip, accessIp := some accessIp }
  if existsHostname st.allHosts host then .ok st
  else
    let known ← existsIp st.allHosts ip
    if known then .ok st
    else if s.useRealHostname then
      let nextHost ← s.realHostname accessIp
      .ok { st with allHosts := st.allHosts.setItem nextHost (hostOpts ip accessIp) }
    else
      let nextHost := s.hostPrefix ++ toString st.nextHostId
      .ok { st with
        allHosts := st.allHosts.setItem nextHost (hostOpts ip accessIp)
        nextHostId := st.nextHostId + 1 }

/-- `name,ip` or `name,ip,access_ip`; without a comma the variables keep what they had. -/
def addNamed (st : Scan) (host : String) : Except PyError Scan := do
  let st ←
    if ',' ∈ host.toList then
      match splitChar ',' host.toList with
      | [hostname, ip, accessIp] => Except.ok { st with
          hostname := some (String.ofList hostname)
          ip := some (String.ofList ip)
          accessIp := some (String.ofList accessIp) }
      | [hostname, ip] => .ok { st with
          hostname := some (String.ofList hostname)
          ip := some (String.ofList ip)
          accessIp := some (String.ofList ip) }
      | _ => .error unpackError
    else .ok st
  if existsHostname st.allHosts host then .ok st
  else
    let ip ← readLocal "ip" st.ip
    let known ← existsIp st.allHosts ip
    if known then .ok st
    else
      let accessIp ← readLocal "access_ip" st.accessIp
      let hostname ← readLocal "hostname" st.hostname
      .ok { st with allHosts := st.allHosts.setItem hostname (hostOpts ip accessIp) }

/-- One argument of build_hostnames. -/
def changeHost (s : Settings) (st : Scan) (host : String) : Except PyError Scan :=
  match host.toList with
  | [] => .error .indexError
  | c :: cs =>
    if c = '-' then deleteHost st (String.ofList cs)
    else if s.tables.isdigit c then addAddress s st host
    else if s.tables.isalpha c then addNamed st host
    else .ok st

def buildHostnames (s : Settings) (a : AllGroup) (changedHosts : List String) :
    Except PyError HostMap := do
  let (existing, highest) := existingHosts s.tables a.hosts
  let st ← changedHosts.foldlM (changeHost s) ⟨existing, highest + 1, none, none, none⟩
  .ok st.allHosts

end Kubespray.Inventory
