/-
`qcom/qrtr/src/lookup.c`: the tool that lists servers, and what it lists.

The tool sends one NEW_LOOKUP and prints a line for each NEW_SERVER that it gets, until one comes that is
all zero. Put together with the name server: it lists the servers that match at the time of the
request and no others, whatever comes after, since the name server ends its first reply with such
a packet before it takes another one.

The arguments are given as words; `strtoul` and the usage text are left out.
-/
import Dragonboard.NsLookups
import Dragonboard.QrtrIdentity

set_option autoImplicit false

namespace Dragonboard.LookupTool

open Dragonboard.Memory Dragonboard.Ns Dragonboard.MapApi Dragonboard.Qrtr

/-! ## The tool

`qrtr-lookup` from its request to the lines it prints. -/

/-- `DIAG_SERVICE`. -/
def DIAG_SERVICE : UInt32 := 4097

/-- An entry of `common_names`. -/
structure CommonName where
  service : UInt32
  ifilter : UInt32
  name : String

/-- `common_names`. -/
def common_names : List CommonName := [
  ⟨0, 0, "Control service"⟩,
  ⟨1, 0, "Wireless Data Service"⟩,
  ⟨2, 0, "Device Management Service"⟩,
  ⟨3, 0, "Network Access Service"⟩,
  ⟨4, 0, "Quality Of Service service"⟩,
  ⟨5, 0, "Wireless Messaging Service"⟩,
  ⟨6, 0, "Position Determination Service"⟩,
  ⟨7, 0, "Authentication service"⟩,
  ⟨8, 0, "AT service"⟩,
  ⟨9, 0, "Voice service"⟩,
  ⟨10, 0, "Card Application Toolkit service (v2)"⟩,
  ⟨11, 0, "User Identity Module service"⟩,
  ⟨12, 0, "Phonebook Management service"⟩,
  ⟨13, 0, "QCHAT service"⟩,
  ⟨14, 0, "Remote file system service"⟩,
  ⟨15, 0, "Test service"⟩,
  ⟨16, 0, "Location service (~ PDS v2)"⟩,
  ⟨17, 0, "Specific absorption rate service"⟩,
  ⟨18, 0, "IMS settings service"⟩,
  ⟨19, 0, "Analog to digital converter driver service"⟩,
  ⟨20, 0, "Core sound driver service"⟩,
  ⟨21, 0, "Modem embedded file system service"⟩,
  ⟨22, 0, "Time service"⟩,
  ⟨23, 0, "Thermal sensors service"⟩,
  ⟨24, 0, "Thermal mitigation device service"⟩,
  ⟨25, 0, "Service access proxy service"⟩,
  ⟨26, 0, "Wireless data administrative service"⟩,
  ⟨27, 0, "TSYNC control service"⟩,
  ⟨28, 0, "Remote file system access service"⟩,
  ⟨29, 0, "Circuit switched videotelephony service"⟩,
  ⟨30, 0, "Qualcomm mobile access point service"⟩,
  ⟨31, 0, "IMS presence service"⟩,
  ⟨32, 0, "IMS videotelephony service"⟩,
  ⟨33, 0, "IMS application service"⟩,
  ⟨34, 0, "Coexistence service"⟩,
  ⟨36, 0, "Persistent device configuration service"⟩,
  ⟨38, 0, "Simultaneous transmit service"⟩,
  ⟨39, 0, "Bearer independent transport service"⟩,
  ⟨40, 0, "IMS RTP service"⟩,
  ⟨41, 0, "RF radiated performance enhancement service"⟩,
  ⟨42, 0, "Data system determination service"⟩,
  ⟨43, 0, "Subsystem control service"⟩,
  ⟨49, 0, "IPA control service"⟩,
  ⟨51, 0, "CoreSight remote tracing service"⟩,
  ⟨52, 0, "Dynamic Heap Memory Sharing"⟩,
  ⟨64, 0, "Service registry locator service"⟩,
  ⟨66, 0, "Service registry notification service"⟩,
  ⟨69, 0, "ATH10k WLAN firmware service"⟩,
  ⟨224, 0, "Card Application Toolkit service (v1)"⟩,
  ⟨225, 0, "Remote Management Service"⟩,
  ⟨226, 0, "Open Mobile Alliance device management service"⟩,
  ⟨312, 0, "QBT1000 Ultrasonic Fingerprint Sensor service"⟩,
  ⟨769, 0, "SLIMbus control service"⟩,
  ⟨771, 0, "Peripheral Access Control Manager service"⟩,
  ⟨DIAG_SERVICE, 0, "DIAG service"⟩]

/-- `diag_instance_base_str`. -/
def diag_instance_base_str (instance_base : UInt32) : String :=
  match instance_base.toNat with
  | 0 => "MODEM"
  | 1 => "LPASS"
  | 2 => "WCNSS"
  | 3 => "SENSORS"
  | 4 => "CDSP"
  | 5 => "WDSP"
  | _ => "<unk>"

/-- `diag_instance_str`. -/
def diag_instance_str (instance_ : UInt32) : String :=
  match instance_.toNat with
  | 0 => "CNTL"
  | 1 => "CMD"
  | 2 => "DATA"
  | 3 => "DCI_CMD"
  | 4 => "DCI"
  | _ => "<unk>"

/-- `get_diag_instance_info`. The longest text has 15 characters, and the buffer 24. -/
def get_diag_instance_info (instance_ : UInt32) : String :=
  diag_instance_base_str (instance_ >>> 6) ++ ":" ++ diag_instance_str (instance_ &&& 0x3f)

/-- The loop over `common_names`: the last entry that fits. -/
def main.name (service instance_ : UInt32) : String :=
  let fits := fun (e : CommonName) =>
    service = e.service ∧ ¬ (instance_ ≠ 0 ∧ instance_ &&& e.ifilter ≠ e.ifilter)
  ((common_names.filter fun e => fits e).getLast?.map CommonName.name).getD "<unknown>"

/-- A line of the list. There is no version for the DIAG service, and its instance is the whole
word. -/
structure Row where
  service : UInt32
  version : Option UInt32
  instance_ : UInt32
  node : UInt32
  port : UInt32
  name : String
  info : Option String
deriving DecidableEq, Repr

/-- The line for a packet. -/
def main.row (pkt : QrtrCtrlPkt) : Row :=
  let instance_ := pkt.instance_ >>> 8
  let name := main.name pkt.service instance_
  if pkt.service = DIAG_SERVICE then
    ⟨pkt.service, none, pkt.instance_, pkt.node, pkt.port, name,
      some (get_diag_instance_info pkt.instance_)⟩
  else
    ⟨pkt.service, some (pkt.instance_ &&& 0xff), instance_, pkt.node, pkt.port, name, none⟩

/-- A text set to the right in some columns. -/
def rightAlign (width : ℕ) (text : String) : String :=
  String.ofList (List.replicate (width - text.length) ' ') ++ text

/-- `%d` with a width: a word is printed as a signed number. -/
def printNumber (width : ℕ) (n : UInt32) : String := rightAlign width (toString n.toInt32.toInt)

/-- What `printf` makes of a line. -/
def Row.text (r : Row) : String :=
  let version := match r.version with
    | some version => printNumber 7 version
    | none => rightAlign 7 "N/A"
  let line := " ".intercalate [printNumber 9 r.service, version, printNumber 8 r.instance_,
    printNumber 4 r.node, printNumber 5 r.port, r.name]
  match r.info with
  | some info => line ++ " (" ++ info ++ ")"
  | none => line

/-- The request of the tool, as it comes to the name server. -/
def main.request (sq : SockaddrQrtr) (service instance_ : UInt32) (stale : Mem) : Datagram :=
  ⟨sq, (QrtrCtrlPkt.mk QrtrType.new_lookup.code service instance_ 0 0).bytes, stale⟩

/-- The loop of `main` on the packets that come: the lines, and whether it ends without a failure
of `recv`. `recv` stores no more than a `struct qrtr_ctrl_pkt`. -/
def main.receive : List (List UInt8) → List Row × Bool
  | [] => ([], false)
  | data :: rest =>
    let pkt := ctrl (data.take 20)
    if data.length = 0 then ([], true)
    else if data.length < 20 ∨ pkt.cmd ≠ QrtrType.new_server.code then main.receive rest
    else if pkt.service = 0 ∧ pkt.instance_ = 0 ∧ pkt.node = 0 ∧ pkt.port = 0 then ([], true)
    else
      let r := main.receive rest
      (main.row pkt :: r.1, r.2)

/-! ## The loop

The tool reads packets until the one that ends the first reply. On a first reply it prints one
line for each packet. -/

theorem ctrl_pkt (pkt : QrtrCtrlPkt) : ctrl (pkt.bytes.take 20) = pkt := by
  rw [List.take_of_length_le (by simp), ctrl_bytes]

/-- The line for a server. -/
def listing (srv : Server) : Row := main.row (srv.pkt .new_server)

/-- The loop prints a line for a server. -/
theorem loop_server {srv : Server} (h : srv.service ≠ 0) (rest : List (List UInt8)) :
    main.receive ((srv.pkt .new_server).bytes :: rest) =
      (listing srv :: (main.receive rest).1, (main.receive rest).2) := by
  have hzero : ¬ ((srv.pkt .new_server).service = 0 ∧ (srv.pkt .new_server).instance_ = 0 ∧
      (srv.pkt .new_server).node = 0 ∧ (srv.pkt .new_server).port = 0) := fun hz => h hz.1
  rw [main.receive, ctrl_pkt, if_neg (by simp), if_neg, if_neg hzero]
  · rfl
  · rintro (hlen | htype)
    · simp at hlen
    · exact htype rfl

/-- The loop ends at the packet that ends a first reply. -/
theorem loop_end (rest : List (List UInt8)) : main.receive (endMarker :: rest) = ([], true) := by
  rw [main.receive, endMarker, ctrl_pkt, if_neg (by simp), if_neg, if_pos ⟨rfl, rfl, rfl, rfl⟩]
  rintro (hlen | htype)
  · simp at hlen
  · exact htype rfl

/-- The loop on a first reply: what comes after it is not read. -/
theorem loop_replies (l : Lookup) {found : List Server} (hfound : ∀ srv ∈ found, srv.service ≠ 0)
    (rest : List (List UInt8)) :
    main.receive ((replies l found).map Sent.data ++ rest) = (found.map listing, true) := by
  induction found with
  | nil => exact loop_end rest
  | cons srv found ih =>
      have hrest := ih fun r hr => hfound r (List.mem_cons_of_mem srv hr)
      have hsplit : (replies l (srv :: found)).map Sent.data ++ rest =
          (srv.pkt .new_server).bytes :: ((replies l found).map Sent.data ++ rest) := rfl
      rw [hsplit, loop_server (hfound srv List.mem_cons_self), hrest]
      rfl

/-! ## The name server

The packets come from the name server of `Ns`, which has received the request. -/

section Server

variable {M : Type → Type} [StructMap M] [LawfulMap M] (sys : Sys) (local_node : UInt32)

variable {sys local_node}

omit [LawfulMap M] in
/-- What has been sent stays sent. -/
theorem sent_grows {d : Datagram} {v v' : View M} (hd : Deed sys local_node d v v') :
    v.sent <+: v'.sent := by
  cases hd with
  | forget => exact List.prefix_rfl
  | _ => exact List.prefix_append _ _

theorem main_run_sent_grows (pre post : List Datagram) :
    (main.run sys local_node pre : Context M).sent <+:
      (main.run sys local_node (pre ++ post) : Context M).sent := by
  induction post using List.reverseRecOn with
  | nil => simp only [List.append_nil, List.prefix_rfl]
  | append_singleton post d ih =>
      have hnodes := main_run_nodes (M := M) sys local_node (pre ++ post)
      have hstep := main_step_refines sys local_node hnodes d
      rw [← List.append_assoc, main_run_append sys local_node (pre ++ post) [d]]
      refine ih.trans ?_
      exact hstep.induction (P := fun v =>
        (main.run sys local_node (pre ++ post) : Context M).sent <+: v.sent)
        (fun _ _ hv hd => hv.trans (sent_grows hd)) List.prefix_rfl

/-- **What a request does**: the reply is sent, with a packet for each server that matches, one if no
key of a table was put while it was present. -/
theorem request_reply (hsends : sys.Delivers) (hallocates : sys.Allocates) {s : Context M}
    (hnodes : Nodes s) (hsock : s.sock = true) {sq : SockaddrQrtr}
    (hlocal : sq.sq_node = local_node) (service instance_ : UInt32) (stale : Mem) :
    ∃ found, (∀ srv, srv ∈ found ↔
        Lookup.Matches ⟨s.time, service, instance_, sq⟩ srv ∧ srv ∈ registry s.reg) ∧
      (Calm local_node s.view → found.Nodup) ∧
      (main.step sys local_node s (main.request sq service instance_ stale)).sent =
        s.sent ++ replies ⟨s.time, service, instance_, sq⟩ found := by
  obtain ⟨hrun, hcode⟩ := ctrl_port_fn_dispatch sys local_node
    (main.request sq service instance_ stale) s (Datagram.type_bytes sq .new_lookup _ rfl stale)
  have hmsg : (main.request sq service instance_ stale).msg =
      ⟨QrtrType.new_lookup.code, service, instance_, 0, 0⟩ := (Datagram.msg_bytes sq _ stale).2
  rw [main.step, if_pos hsock, hrun, ctrl_port_fn.dispatch, hcode, hmsg]
  rcases hnodes.ctrl_cmd_new_lookup sys local_node sq service instance_ with
    hnone | ⟨-, found, o, t, hfound, hnodup, ho, -, hb⟩
  · -- the request is registered, so this is not a refusal
    have hlookups := ctrl_cmd_new_lookup_lookups sys local_node hnodes sq service instance_
    rw [if_neg (not_not.mpr hlocal), if_pos (hallocates _ _), hnone.reg.2] at hlookups
    have hlen := congrArg List.length hlookups
    simp at hlen
  · refine ⟨found, fun srv => ?_, fun hcalm => ?_, ?_⟩
    · rw [hfound, Lookup.wants_iff]
      rfl
    · refine hnodup (fun x e he => ?_) hcalm.good
      obtain ⟨hkey, hnode, -⟩ := hcalm.sound.keyed x e he
      exact ⟨hkey, hnode⟩
    · have hsent := congrArg View.sent hb.view
      simp only [Context.view_sent] at hsent
      rw [← ho.all hsends]
      exact hsent

/-- What is sent to an address between two states: what comes to a socket that is opened there. -/
def inbox (s s' : Context M) (sq : SockaddrQrtr) : List (List UInt8) :=
  ((s'.sent.drop s.sent.length).filter (·.dest = sq)).map Sent.data

/-- A service that was published under a version of one byte is listed with this version and its
instance. -/
theorem listing_record (p : Identity) (h : p.version < 256) (hdiag : p.service ≠ DIAG_SERVICE)
    (addr : SockaddrQrtr) :
    listing (p.record addr) =
      ⟨p.service, some p.version.toUInt32, p.instance_.toUInt32, addr.sq_node, addr.sq_port,
        main.name p.service p.instance_.toUInt32, none⟩ := by
  obtain ⟨hversion, hinstance⟩ := Identity.word_split h
  have hpkt : (p.record addr).pkt .new_server =
      ⟨QrtrType.new_server.code, p.service, p.word, addr.sq_node, addr.sq_port⟩ := rfl
  rw [listing, main.row, hpkt, if_neg hdiag, hversion, hinstance]

/-- **The tool lists what is registered.** In every run of the name server in which allocations and sends
succeed, a request of a local client gives a line for each server that is registered then and
matches, and no other line, and the tool ends by itself. No server has two lines, if no record was
replaced before. What comes before and after makes no difference otherwise, registrations and removals
of matching servers too. -/
theorem lookup_lists (hsends : sys.Delivers) (hallocates : sys.Allocates)
    (before after : List Datagram)
    (hsock : (main.run sys local_node before : Context M).sock = true) {sq : SockaddrQrtr}
    (hlocal : sq.sq_node = local_node) (service instance_ : UInt32) (stale : Mem) :
    ∃ found : List Server, (∀ srv, srv ∈ found ↔
        Lookup.Matches ⟨(main.run sys local_node before : Context M).time, service, instance_, sq⟩
          srv ∧ srv ∈ registry (main.run sys local_node before : Context M).reg) ∧
      (NeverReplaces M sys local_node before → found.Nodup) ∧
      (∀ (p : Identity) (addr : SockaddrQrtr), p.record addr ∈ found → p.version < 256 →
        p.service ≠ DIAG_SERVICE → listing (p.record addr) =
          ⟨p.service, some p.version.toUInt32, p.instance_.toUInt32, addr.sq_node, addr.sq_port,
            main.name p.service p.instance_.toUInt32, none⟩) ∧
      main.receive (inbox (main.run sys local_node before : Context M) (main.run sys local_node
          (before ++ main.request sq service instance_ stale :: after)) sq) =
        (found.map listing, true) := by
  have hsound : Sound local_node (main.run sys local_node before : Context M).view :=
    main_run_sound sys local_node before
  obtain ⟨found, hfound, hnodup, hsent⟩ := request_reply hsends hallocates
    (main_run_nodes (M := M) sys local_node before) hsock hlocal service instance_ stale
  refine ⟨found, hfound, fun hrun => hnodup (main_run_watched hsends before hrun).toCalm,
    fun p addr _ hversion hdiag => listing_record p hversion hdiag addr, ?_⟩
  set s : Context M := main.run sys local_node before with hs
  -- the reply comes first of what is sent for the request
  have hlater : (s.sent ++ replies ⟨s.time, service, instance_, sq⟩ found) <+:
      (main.run sys local_node
        (before ++ main.request sq service instance_ stale :: after) : Context M).sent := by
    have hprefix : (main.run sys local_node
          (before ++ [main.request sq service instance_ stale]) : Context M).sent <+:
        (main.run sys local_node
          ((before ++ [main.request sq service instance_ stale]) ++ after) : Context M).sent :=
      main_run_sent_grows (before ++ [main.request sq service instance_ stale]) after
    rw [main_run_append, List.foldl_cons, List.foldl_nil, ← hs, hsent, List.append_assoc] at hprefix
    exact hprefix
  obtain ⟨rest, hrest⟩ := hlater
  have hall : (replies ⟨s.time, service, instance_, sq⟩ found).filter (·.dest = sq) =
      replies ⟨s.time, service, instance_, sq⟩ found := by
    refine List.filter_eq_self.mpr fun p hp => ?_
    rw [decide_eq_true_eq]
    exact replies_dest hp
  have hservice : ∀ srv ∈ found, srv.service ≠ 0 := by
    intro srv hsrv
    obtain ⟨-, x, hx⟩ := (hfound srv).mp hsrv
    rw [records_eq] at hx
    obtain ⟨e, he, rfl⟩ := List.mem_map.mp hx
    exact (hsound.keyed x e he).2.2.1
  rw [inbox, ← hrest, List.append_assoc, List.drop_left, List.filter_append, hall, List.map_append]
  exact loop_replies _ hservice _

end Server

/-- Port 10 of node 1 has published service 5, and port 20 lists it; then it goes away. -/
theorem lookup_lists_one :
    ∃ found : List Server, (∀ srv, srv ∈ found ↔
        Lookup.Matches ⟨(main.run allWell 1
            [packet ⟨1, 10⟩ ⟨QrtrType.new_server.code, 5, 0x601, 0, 0⟩] : Context FinMap).time,
          5, 0, ⟨1, 20⟩⟩ srv ∧
        srv ∈ registry (main.run allWell 1
          [packet ⟨1, 10⟩ ⟨QrtrType.new_server.code, 5, 0x601, 0, 0⟩] : Context FinMap).reg) ∧
      found.Nodup ∧
      main.receive (inbox (main.run allWell 1
          [packet ⟨1, 10⟩ ⟨QrtrType.new_server.code, 5, 0x601, 0, 0⟩] : Context FinMap)
        (main.run allWell 1
          ([packet ⟨1, 10⟩ ⟨QrtrType.new_server.code, 5, 0x601, 0, 0⟩] ++
            main.request ⟨1, 20⟩ 5 0 (fun _ => 0) ::
              [packet ⟨1, 10⟩ ⟨QrtrType.del_server.code, 5, 0x601, 1, 10⟩])) ⟨1, 20⟩) =
        (found.map listing, true) := by
  have hsock : (main.run allWell 1
      [packet ⟨1, 10⟩ ⟨QrtrType.new_server.code, 5, 0x601, 0, 0⟩] : Context FinMap).sock = true := by
    decide +kernel
  have hlocal : (⟨1, 20⟩ : SockaddrQrtr).sq_node = 1 := rfl
  have hrun : NeverReplaces FinMap allWell 1
      [packet ⟨1, 10⟩ ⟨QrtrType.new_server.code, 5, 0x601, 0, 0⟩] := by
    decide +kernel
  obtain ⟨found, hfound, hnodup, -, hlines⟩ := lookup_lists allWell_delivers allWell_allocates
    [packet ⟨1, 10⟩ ⟨QrtrType.new_server.code, 5, 0x601, 0, 0⟩]
    [packet ⟨1, 10⟩ ⟨QrtrType.del_server.code, 5, 0x601, 1, 10⟩] hsock hlocal 5 0
    (fun _ => 0)
  exact ⟨found, hfound, hnodup hrun, hlines⟩

end Dragonboard.LookupTool
