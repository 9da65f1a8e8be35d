import Kubespray.Lib.Grep
import Kubespray.Lib.IpAddress

/-! The members of the etcd cluster, as `etcdctl member list` prints them. -/
namespace Kubespray.Etcd
open Grep

structure Url where
  host : IPv4
  port : Nat
  deriving DecidableEq

def Url.text (u : Url) : String := "https://" ++ u.host.exploded ++ ":" ++ toString u.port

/-- Member ids are printed in hexadecimal, so they hold no comma and no newline. -/
structure MemberId where
  text : String
  nonempty : text ≠ ""
  plain : text.toList.all Char.isAlphanum = true
  deriving DecidableEq

theorem MemberId.eq_of_text {i j : MemberId} (h : i.text = j.text) : i = j := by
  cases i
  cases j
  cases h
  rfl

/-- A member that was added but has not started yet has no client URL. -/
structure Member where
  id : MemberId
  status : String
  name : String
  peerURL : Url
  clientURL : Option Url
  learner : Bool
  deriving DecidableEq

def Member.hosts (m : Member) : List IPv4 := m.peerURL.host :: m.clientURL.toList.map Url.host

def Member.line (m : Member) : String :=
  m.id.text ++ ", " ++ m.status ++ ", " ++ m.name ++ ", " ++ m.peerURL.text ++ ", " ++
    (m.clientURL.map Url.text).getD "" ++ ", " ++ toString m.learner

/-- The lines of `etcdctl member list`. -/
def memberList (ms : List Member) : List String := ms.map Member.line

theorem Url.occurs_host (u : Url) (a b : String) : Occurs u.host.exploded (a ++ u.text ++ b) := by
  have h := occurs_of_append (a ++ "https://") u.host.exploded (":" ++ toString u.port ++ b)
  simpa only [Url.text, String.append_assoc] using h

theorem Member.occurs_line (m : Member) (a : IPv4) (h : a ∈ m.hosts) :
    Occurs a.exploded m.line := by
  rw [Member.hosts, List.mem_cons] at h
  rcases h with rfl | h
  · have hu := m.peerURL.occurs_host (m.id.text ++ ", " ++ m.status ++ ", " ++ m.name ++ ", ")
      (", " ++ (m.clientURL.map Url.text).getD "" ++ ", " ++ toString m.learner)
    simpa only [Member.line, String.append_assoc] using hu
  · cases hc : m.clientURL with
    | none => simp [hc] at h
    | some u =>
      have ha : a = u.host := by simpa [hc] using h
      have hu := u.occurs_host (m.id.text ++ ", " ++ m.status ++ ", " ++ m.name ++ ", " ++
        m.peerURL.text ++ ", ") (", " ++ toString m.learner)
      rw [ha]
      simpa only [Member.line, hc, Option.map_some, Option.getD_some, String.append_assoc] using hu

theorem MemberId.not_mem_of_not_alphanum (i : MemberId) (c : Char) (hc : c.isAlphanum = false) :
    c ∉ i.text.toList := by
  intro h
  rw [List.all_eq_true.mp i.plain c h] at hc
  cases hc

end Kubespray.Etcd
