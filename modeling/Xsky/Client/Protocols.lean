import Xsky.Client.Controller

/-!
# Client.Protocols

`client/ProtocolDialog.cpp`: six check boxes for the list of protocols of the controller.

A list may hold what no box stands for, or hold it twice or in another order, since it is read from
`config.ini`. `protocols_kept_iff`: such a list, and no other, is changed by a dialog that is
accepted as it was opened.
-/

namespace Xsky
namespace Client

open Kit

/-- Which boxes are checked, in the order the dialog goes through them. -/
structure ProtocolDialog where
  checkBoxDNS : Bool
  checkBoxHTTP : Bool
  checkBoxTCP : Bool
  checkBoxUDP : Bool
  checkBoxICMP : Bool
  checkBoxARP : Bool
deriving DecidableEq

/-- The texts of the boxes. -/
def boxTexts : List String := ["DNS", "HTTP", "TCP", "UDP", "ICMP", "ARP"]

namespace ProtocolDialog

def new (c : Controller) : ProtocolDialog :=
  let protocols := c.p.protocols
  { checkBoxDNS := protocols.contains "DNS"
    checkBoxHTTP := protocols.contains "HTTP"
    checkBoxTCP := protocols.contains "TCP"
    checkBoxUDP := protocols.contains "UDP"
    checkBoxICMP := protocols.contains "ICMP"
    checkBoxARP := protocols.contains "ARP" }

def protocols (d : ProtocolDialog) : List String :=
  (if d.checkBoxDNS then ["DNS"] else []) ++ (if d.checkBoxHTTP then ["HTTP"] else []) ++
    (if d.checkBoxTCP then ["TCP"] else []) ++ (if d.checkBoxUDP then ["UDP"] else []) ++
    (if d.checkBoxICMP then ["ICMP"] else []) ++ (if d.checkBoxARP then ["ARP"] else [])

def onPushButtonAcceptClicked (toJson : JsonObject → List Byte) (d : ProtocolDialog)
    (c : Controller) : Controller :=
  setProtocolList toJson c d.protocols

end ProtocolDialog

variable {toJson : JsonObject → List Byte}

theorem filter_boxTexts (checks : String → Bool) :
    boxTexts.filter checks =
      ProtocolDialog.protocols
        ⟨checks "DNS", checks "HTTP", checks "TCP", checks "UDP", checks "ICMP", checks "ARP"⟩ := by
  unfold boxTexts ProtocolDialog.protocols
  simp only [List.filter_cons, List.filter_nil]
  cases checks "DNS" <;> cases checks "HTTP" <;> cases checks "TCP" <;> cases checks "UDP" <;>
    cases checks "ICMP" <;> cases checks "ARP" <;> rfl

/-- An untouched dialog has the boxes of the protocols there are. -/
theorem new_protocols (c : Controller) :
    (ProtocolDialog.new c).protocols = boxTexts.filter fun text => c.p.protocols.contains text :=
  (filter_boxTexts fun text => c.p.protocols.contains text).symm

/-- Whatever is checked is checked again. -/
theorem new_of_protocols {c : Controller} {d : ProtocolDialog} (h : c.p.protocols = d.protocols) :
    ProtocolDialog.new c = d := by
  unfold ProtocolDialog.new
  rw [h]
  obtain ⟨dns, http, tcp, udp, icmp, arp⟩ := d
  cases dns <;> cases http <;> cases tcp <;> cases udp <;> cases icmp <;> cases arp <;> rfl

theorem setProtocolList_protocols (c : Controller) (protocols : List String) :
    (setProtocolList toJson c protocols).p.protocols = protocols := by
  unfold setProtocolList
  split
  · rfl
  · rename_i hsame
    exact Decidable.not_not.mp hsame

theorem setProtocolList_eq_iff (c : Controller) (protocols : List String) :
    setProtocolList toJson c protocols = c ↔ c.p.protocols = protocols := by
  constructor
  · intro h
    have hset := @setProtocolList_protocols toJson c protocols
    rwa [h] at hset
  · intro h
    unfold setProtocolList
    rw [if_neg (not_not_intro h)]

/-- A selection from a list without duplicates is what it selects. -/
theorem filter_contains_eq_iff {texts protocols : List String} (hnodup : texts.Nodup) :
    (texts.filter fun text => protocols.contains text) = protocols ↔
      protocols.Sublist texts := by
  constructor
  · intro h
    rw [← h]
    exact List.filter_sublist
  · intro h
    induction h with
    | slnil => rfl
    | cons text h ih =>
      obtain ⟨hnot, hrest⟩ := List.nodup_cons.mp hnodup
      rw [List.filter_cons_of_neg, ih hrest]
      exact fun hin => hnot (h.subset (List.contains_iff_mem.mp hin))
    | cons_cons text h ih =>
      obtain ⟨hnot, hrest⟩ := List.nodup_cons.mp hnodup
      rw [List.filter_cons_of_pos (by simp)]
      congr 1
      refine Eq.trans (List.filter_congr fun other hother => ?_) (ih hrest)
      have hne : other ≠ text := fun heq => hnot (heq ▸ hother)
      simp [hne]

/-- Accepted as it was opened, the dialog leaves the controller as it is. -/
theorem protocols_kept_iff (toJson : JsonObject → List Byte) (c : Controller) :
    (ProtocolDialog.new c).onPushButtonAcceptClicked toJson c = c ↔
      c.p.protocols.Sublist boxTexts := by
  unfold ProtocolDialog.onPushButtonAcceptClicked
  rw [setProtocolList_eq_iff, new_protocols, eq_comm]
  exact filter_contains_eq_iff (by decide)

end Client
end Xsky
