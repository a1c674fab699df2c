import XrayApi.Service.Inbounds
import XrayApi.Sublink.Reading

/-!
# The transport in both formats

`Transport` has the connection parameters of an inbound, each absent when it is empty. It is read
from the query of a VLESS or Trojan link, from the JSON object of a VMess link, and from a Clash
proxy. `Transport.ofInbound` is what the inbound says. A Clash proxy and a URI say the same
(`transport_clashProxyFor`, `transport_uri`). A VMess object has no place for the parameters of
XHTTP, the fingerprint and the keys of REALITY (`transport_vmess`, `inVMess_eq_iff`).
-/

set_option autoImplicit false

namespace XrayApi.Sublink

open Codec Service

/-- The connection parameters. -/
structure Transport where
  network : Option String
  path : Option String
  host : Option String
  serviceName : Option String
  mode : Option String
  security : Option String
  sni : Option String
  fingerprint : Option String
  publicKey : Option String
  shortID : Option String
  deriving DecidableEq, Repr

/-- A security other than `none`. -/
def secured (s : String) : Option String := if s = "" ∨ s = "none" then none else some s

namespace Transport

/-- The parameters of an inbound that its network and its security use. -/
def ofInbound (ib : Inbound) : Transport where
  network := some ib.network.text
  path := if ib.network ∈ [.ws, .httpupgrade, .xhttp] then nonempty ib.wsPath else none
  host := if ib.network ∈ [.ws, .httpupgrade, .xhttp] then nonempty ib.hostHeader else none
  serviceName := if ib.network = .grpc then nonempty ib.grpcServiceName else none
  mode := if ib.network = .xhttp then nonempty ib.xhttpMode else none
  security := secured ib.security.text
  sni := if ib.security ∈ [.tls, .reality] then nonempty ib.sni else none
  fingerprint := if ib.security ∈ [.tls, .reality] then nonempty ib.fingerprint else none
  publicKey := if ib.security = .reality then nonempty ib.realityPublicKey else none
  shortID := if ib.security = .reality then nonempty ib.realityShortID else none

/-- From the query of a URI. -/
def ofQuery (get : String → Option String) : Transport where
  network := get "type"
  path := (get "path").bind nonempty
  host := (get "host").bind nonempty
  serviceName := (get "serviceName").bind nonempty
  mode := (get "mode").bind nonempty
  security := (get "security").bind secured
  sni := (get "sni").bind nonempty
  fingerprint := (get "fp").bind nonempty
  publicKey := (get "pbk").bind nonempty
  shortID := (get "sid").bind nonempty

/-- From the object of a VMess link, where the path of a gRPC transport is its service name. -/
def ofVMess (get : String → Option String) : Transport where
  network := get "net"
  path := if get "net" = some "grpc" then none else (get "path").bind nonempty
  host := (get "host").bind nonempty
  serviceName := if get "net" = some "grpc" then (get "path").bind nonempty else none
  mode := (get "mode").bind nonempty
  security := (get "tls").bind secured
  sni := (get "sni").bind nonempty
  fingerprint := (get "fp").bind nonempty
  publicKey := (get "pbk").bind nonempty
  shortID := (get "sid").bind nonempty

/-- From a Clash proxy. A block for REALITY, even an empty one, says that it is used; the server
name stands in either of two fields. -/
def ofClash (p : ClashProxy) : Transport where
  network := some p.network
  path := (p.wsOpts.bind WSOpts.path).or (p.xhttpOpts.bind (TextMap.get · "path"))
  host := (p.wsOpts.bind fun o => o.headers.bind (TextMap.get · "Host")).or
    (p.xhttpOpts.bind (TextMap.get · "host"))
  serviceName := p.grpcOpts.bind (TextMap.get · "grpc-service-name")
  mode := p.xhttpOpts.bind (TextMap.get · "mode")
  security := if p.tls then some (if p.realityOpts.isSome then "reality" else "tls") else none
  sni := (nonempty p.servername).or (nonempty p.sni)
  fingerprint := nonempty p.clientFP
  publicKey := p.realityOpts.bind (TextMap.get · "public-key")
  shortID := p.realityOpts.bind (TextMap.get · "short-id")

end Transport

/-- The transport a link describes. -/
def SharedLink.transport : SharedLink → Option Transport
  | uri parts => some (.ofQuery fun k => valueOf k parts.query)
  | vmess fields => some (.ofVMess fun k => valueOf k fields)
  | shadowsocks _ _ _ => none

/-! ## What each format says -/

section Formats

variable {u : User} {ib : Inbound}

/-- A query says what the inbound says. -/
theorem transport_streamParams (ib : Inbound) :
    Transport.ofQuery (streamParams ib).get = .ofInbound ib := by
  unfold streamParams securityParams networkParams
  cases hn : ib.network <;> cases hs : ib.security <;>
    simp [Transport.ofQuery, Transport.ofInbound, TextMap.get_setNonempty, TextMap.get_set, hn, hs]

theorem transport_vlessParams (ib : Inbound) :
    Transport.ofQuery (vlessParams ib).get = .ofInbound ib := by
  rw [← transport_streamParams ib]
  simp [Transport.ofQuery, vlessParams, TextMap.get_setNonempty, TextMap.get_set]

theorem bind_wsOptsFor_path (ib : Inbound) :
    (wsOptsFor ib).bind WSOpts.path = nonempty ib.wsPath := by
  unfold wsOptsFor
  split_ifs with h
  · simp [nonempty, h]
  · rfl

theorem bind_wsOptsFor_host (ib : Inbound) :
    ((wsOptsFor ib).bind fun o => o.headers.bind (TextMap.get · "Host")) =
      nonempty ib.hostHeader := by
  unfold wsOptsFor
  split_ifs with h
  · simp [nonempty, h]
  · by_cases hh : ib.hostHeader = "" <;> simp [nonempty, hh, TextMap.get_set]

theorem bind_xhttpOptsFor (ib : Inbound) (k : String) :
    (xhttpOptsFor ib).bind (TextMap.get · k) =
      (((TextMap.empty.setNonempty "path" ib.wsPath).setNonempty "host"
        ib.hostHeader).setNonempty "mode" ib.xhttpMode).get k := by
  simp only [xhttpOptsFor]
  split_ifs with h
  · rw [TextMap.get, h]
    rfl
  · rfl

theorem bind_grpcOpts (s : String) :
    ((nonempty s).map (TextMap.empty.set "grpc-service-name")).bind
      (TextMap.get · "grpc-service-name") = nonempty s := by
  by_cases h : s = "" <;> simp [nonempty, h, TextMap.get_set]

/-- A proxy without any block for the transport. -/
structure ClashProxy.Bare (ib : Inbound) (p : ClashProxy) : Prop where
  network : p.network = ib.network.text
  tls : p.tls = false
  servername : p.servername = ""
  sni : p.sni = ""
  clientFP : p.clientFP = ""
  realityOpts : p.realityOpts = none
  wsOpts : p.wsOpts = none
  grpcOpts : p.grpcOpts = none
  xhttpOpts : p.xhttpOpts = none

@[simp] theorem nonempty_empty : nonempty "" = none := rfl

/-- The blocks of a Clash proxy say what the inbound says. -/
theorem transport_clash (hsec : ib.security.valid = true) {p : ClashProxy} (hp : p.Bare ib) :
    Transport.ofClash (clashNetwork ib (clashSecurity ib p)) = .ofInbound ib := by
  have hnetwork := hp.network
  unfold clashNetwork clashSecurity
  cases hs : ib.security with
  | other text =>
      rw [hs] at hsec
      cases hsec
  | _ =>
      cases hn : ib.network <;> rw [hn] at hnetwork <;>
      simp [Transport.ofClash, Transport.ofInbound, TextMap.get_setNonempty, hs, hn,
        bind_wsOptsFor_path, bind_wsOptsFor_host, bind_xhttpOptsFor, bind_grpcOpts, hnetwork,
        hp.tls, hp.servername, hp.sni, hp.clientFP, hp.realityOpts, hp.wsOpts, hp.grpcOpts,
        hp.xhttpOpts, secured, Security.text]

/-- What of it a VMess object has room for. -/
def Transport.inVMess (ib : Inbound) : Transport :=
  { ofInbound ib with
    path := if ib.network ∈ [.ws, .httpupgrade] then nonempty ib.wsPath else none
    host := if ib.network ∈ [.ws, .httpupgrade] then nonempty ib.hostHeader else none
    mode := none
    fingerprint := none
    publicKey := none
    shortID := none }

/-! ### The fields of a VMess object -/

theorem get_vmessFields_of_ne {k : String} (hk : k ∉ ["sni", "path", "host"]) :
    (vmessFields u ib).get k = (vmessBase u ib).get k := by
  simp only [List.mem_cons, List.not_mem_nil, or_false, not_or] at hk
  unfold vmessFields vmessNetwork
  cases ib.network <;> split_ifs <;> simp [TextMap.get_set, hk]

theorem get_net_vmessFields : (vmessFields u ib).get "net" = some ib.network.text :=
  (get_vmessFields_of_ne (by decide)).trans rfl

theorem get_tls_vmessFields : (vmessFields u ib).get "tls" = some (tlsField ib.security) :=
  (get_vmessFields_of_ne (by decide)).trans rfl

theorem get_none_vmessFields {k : String} (hk : k ∈ ["mode", "fp", "pbk", "sid"]) :
    (vmessFields u ib).get k = none := by
  simp only [List.mem_cons, List.not_mem_nil, or_false] at hk
  obtain rfl | rfl | rfl | rfl := hk
  · exact (get_vmessFields_of_ne (by decide)).trans rfl
  · exact (get_vmessFields_of_ne (by decide)).trans rfl
  · exact (get_vmessFields_of_ne (by decide)).trans rfl
  · exact (get_vmessFields_of_ne (by decide)).trans rfl

theorem get_vmessFields_of_ne_sni {k : String} (hk : k ≠ "sni") :
    (vmessFields u ib).get k = (vmessNetwork ib (vmessBase u ib)).get k := by
  unfold vmessFields
  split_ifs <;> simp [TextMap.get_set, hk]

theorem get_path_vmessFields :
    (vmessFields u ib).get "path" =
      if ib.network ∈ [.ws, .httpupgrade] then some ib.wsPath
      else if ib.network = .grpc then some ib.grpcServiceName else none := by
  have hbase : (vmessBase u ib).get "path" = none := rfl
  rw [get_vmessFields_of_ne_sni (by decide), vmessNetwork]
  cases ib.network <;> simp [TextMap.get_set, hbase]

theorem get_host_vmessFields :
    (vmessFields u ib).get "host" =
      if ib.network ∈ [.ws, .httpupgrade] then some ib.hostHeader else none := by
  have hbase : (vmessBase u ib).get "host" = none := rfl
  rw [get_vmessFields_of_ne_sni (by decide), vmessNetwork]
  cases ib.network <;> simp [TextMap.get_set, hbase]

theorem get_sni_vmessFields :
    (vmessFields u ib).get "sni" = if ib.security ≠ .none then nonempty ib.sni else none := by
  have hbase : (vmessBase u ib).get "sni" = none := rfl
  have hnetwork : (vmessNetwork ib (vmessBase u ib)).get "sni" = none := by
    unfold vmessNetwork
    cases ib.network <;> simp [TextMap.get_set, hbase]
  unfold vmessFields nonempty
  by_cases hs : ib.security = .none <;> by_cases hsni : ib.sni = "" <;>
    simp [hs, hsni, TextMap.get_set, hnetwork]

theorem transport_vmessFields (hnet : ib.network.valid = true) (hsec : ib.security.valid = true) :
    Transport.ofVMess (vmessFields u ib).get = .inVMess ib := by
  have hgrpc : some ib.network.text = some "grpc" ↔ ib.network = .grpc := by
    cases hn : ib.network with
    | other text =>
        rw [hn] at hnet
        cases hnet
    | _ => simp [Network.text]
  have hsecurity : secured (tlsField ib.security) = secured ib.security.text := by
    cases ib.security <;> rfl
  have hsni : (ib.security ≠ .none) = (ib.security ∈ [.tls, .reality]) := by
    cases hs : ib.security with
    | other text =>
        rw [hs] at hsec
        cases hsec
    | _ => simp
  have hnone : ∀ k ∈ ["mode", "fp", "pbk", "sid"], (vmessFields u ib).get k = none :=
    fun k hk => get_none_vmessFields hk
  have hbind : ∀ (p : Prop) [Decidable p] (s : String),
      (if p then nonempty s else none).bind nonempty = if p then nonempty s else none := by
    intro p _ s
    split_ifs <;> simp
  unfold Transport.ofVMess Transport.inVMess Transport.ofInbound
  simp only [get_net_vmessFields, get_path_vmessFields, get_host_vmessFields, get_sni_vmessFields,
    get_tls_vmessFields, hnone "mode" (by simp), hnone "fp" (by simp), hnone "pbk" (by simp),
    hnone "sid" (by simp), hgrpc, hsni, Option.bind_some, Option.bind_none, hsecurity]
  rw [hbind]
  cases ib.network <;> simp

/-- What a VMess object has no room for is empty. -/
structure FitsVMess (ib : Inbound) : Prop where
  xhttp : ib.network = .xhttp → ib.wsPath = "" ∧ ib.hostHeader = "" ∧ ib.xhttpMode = ""
  fingerprint : ib.security = .tls ∨ ib.security = .reality → ib.fingerprint = ""
  reality : ib.security = .reality → ib.realityPublicKey = "" ∧ ib.realityShortID = ""

theorem nonempty_eq_none {s : String} : nonempty s = none ↔ s = "" := by
  unfold nonempty
  by_cases h : s = "" <;> simp [h]

theorem none_eq_ite {p : Prop} [Decidable p] {s : String} :
    (none = if p then nonempty s else none) ↔ (p → s = "") := by
  rw [eq_comm, ite_eq_right_iff]
  exact imp_congr_right fun _ => nonempty_eq_none

/-- A parameter that XHTTP shares with the websocket. -/
theorem ite_ws_eq_ite {n : Network} {s : String} :
    ((if n ∈ [.ws, .httpupgrade] then nonempty s else none) =
      if n ∈ [.ws, .httpupgrade, .xhttp] then nonempty s else none) ↔ (n = .xhttp → s = "") := by
  cases n with
  | xhttp => simpa using none_eq_ite (p := True) (s := s)
  | _ => simp

/-- A VMess object says what the inbound says exactly when the rest is empty. -/
theorem inVMess_eq_iff : Transport.inVMess ib = .ofInbound ib ↔ FitsVMess ib := by
  simp only [Transport.inVMess, Transport.ofInbound, Transport.mk.injEq, true_and, ite_ws_eq_ite,
    none_eq_ite]
  have htls : ib.security ∈ [.tls, .reality] ↔ ib.security = .tls ∨ ib.security = .reality := by
    simp
  rw [htls]
  constructor
  · rintro ⟨hpath, hhost, hmode, hfp, hpbk, hsid⟩
    exact ⟨fun h => ⟨hpath h, hhost h, hmode h⟩, hfp, fun h => ⟨hpbk h, hsid h⟩⟩
  · intro h
    exact ⟨fun hn => (h.xhttp hn).1, fun hn => (h.xhttp hn).2.1, fun hn => (h.xhttp hn).2.2,
      h.fingerprint, fun hs => (h.reality hs).1, fun hs => (h.reality hs).2⟩

end Formats

/-! ## Both formats -/

/-- What the checks and the defaults of a payload leave for a row. -/
theorem valid_row {inp : InboundInput} (h : inp.validate = .ok ()) (existing : Inbound) :
    (inp.row existing).network.valid = true ∧ (inp.row existing).security.valid = true := by
  have hvalid := InboundInput.validate_eq_ok h
  constructor
  · simp only [InboundInput.row, inboundFromInput]
    split_ifs with hn
    · rfl
    · exact hvalid.network hn
  · simp only [InboundInput.row, inboundFromInput]
    split_ifs with hs
    · rfl
    · exact hvalid.security hs

section Both

variable (u : User) {ib : Inbound}

/-- A Clash proxy of a protocol with a transport says what the inbound says. -/
theorem transport_clashProxyFor (hproto : ib.protocol ∈ [.vless, .vmess, .trojan])
    (hsec : ib.security.valid = true) :
    Transport.ofClash (clashProxyFor u ib) = .ofInbound ib := by
  simp only [List.mem_cons, List.not_mem_nil, or_false] at hproto
  unfold clashProxyFor
  obtain h | h | h := hproto <;> rw [h] <;>
    exact transport_clash hsec ⟨rfl, rfl, rfl, rfl, rfl, rfl, rfl, rfl, rfl⟩

/-- A URI says what the inbound says. -/
theorem transport_uri (scheme user : String) {q : TextMap} (name : String)
    (hq : Transport.ofQuery q.get = .ofInbound ib) :
    SharedLink.transport (.uri ⟨scheme, user, q.sorted, name⟩) = some (.ofInbound ib) := by
  have hget : (fun k => valueOf k q.sorted) = q.get := funext fun _ => TextMap.valueOf_sorted
  rw [SharedLink.transport, hget, hq]

/-- A VMess object says what it has room for. -/
theorem transport_vmess (hnet : ib.network.valid = true) (hsec : ib.security.valid = true) :
    SharedLink.transport (.vmess (vmessFields u ib).sorted) = some (.inVMess ib) := by
  have hget : (fun k => valueOf k (vmessFields u ib).sorted) = (vmessFields u ib).get :=
    funext fun _ => TextMap.valueOf_sorted
  rw [SharedLink.transport, hget, transport_vmessFields hnet hsec]

end Both

/-- For every user and every inbound with an accepted payload and the protocol VLESS, Trojan or
VMess, the link can be read. It describes the same transport as the Clash proxy exactly when the
protocol is not VMess or what a VMess object has no room for is empty. -/
theorem transports_agree_iff (u : User) {inp : InboundInput} (hvalid : inp.validate = .ok ())
    (existing : Inbound) (hproto : inp.protocol ∈ [.vless, .vmess, .trojan]) :
    ∃ text l, link u (inp.row existing) = .ok text ∧ readLink text = some l ∧
      (l.transport = some (.ofClash (clashProxyFor u (inp.row existing))) ↔
        (inp.protocol = .vmess → FitsVMess (inp.row existing))) := by
  obtain ⟨hnet, hsec⟩ := valid_row hvalid existing
  have hib : (inp.row existing).protocol = inp.protocol := rfl
  rw [transport_clashProxyFor u (hib ▸ hproto) hsec]
  simp only [List.mem_cons, List.not_mem_nil, or_false] at hproto
  obtain h | h | h := hproto <;> rw [h] at hib <;> rw [h]
  · refine ⟨_, _, by rw [link, hib], readLink_vlessLink u _, ?_⟩
    simp [transport_uri _ _ _ (transport_vlessParams (inp.row existing))]
  · refine ⟨_, _, by rw [link, hib], readLink_vmessLink u _, ?_⟩
    simp [transport_vmess u hnet hsec, inVMess_eq_iff]
  · refine ⟨_, _, by rw [link, hib], readLink_trojanLink u _, ?_⟩
    simp [transport_uri _ _ _ (transport_streamParams (inp.row existing))]

/-- An inbound over XHTTP and TLS. -/
def xhttpInput (protocol : Protocol) : InboundInput where
  tag := "in"
  protocol := protocol
  listenPort := 443
  publicHost := "h"
  publicPort := 443
  network := .xhttp
  security := .tls
  wsPath := "/x"
  hostHeader := "h"
  grpcServiceName := ""
  sni := "h"
  fingerprint := "chrome"
  realityPublicKey := ""
  realityShortID := ""
  flow := ""
  method := ""
  xhttpMode := "auto"
  remark := ""

theorem transports_agree_iff_vless :
    ∃ text l, link (.plain "u" "u@x") ((xhttpInput .vless).row (.plain "i" "n" "in" .vless)) =
        .ok text ∧ readLink text = some l ∧
      l.transport = some (.ofClash (clashProxyFor (.plain "u" "u@x")
        ((xhttpInput .vless).row (.plain "i" "n" "in" .vless)))) := by
  obtain ⟨text, l, hlink, hread, hiff⟩ := transports_agree_iff (.plain "u" "u@x")
    (show (xhttpInput .vless).validate = .ok () from rfl) (.plain "i" "n" "in" .vless) (by decide)
  exact ⟨text, l, hlink, hread, hiff.2 nofun⟩

/-- A VMess link over XHTTP has neither the path nor the fingerprint that the Clash proxy has. -/
theorem vmess_xhttp_loses_path :
    (xhttpInput .vmess).validate = .ok () ∧
    ∃ text l t, link (.plain "u" "u@x") ((xhttpInput .vmess).row (.plain "i" "n" "in" .vmess)) =
        .ok text ∧ readLink text = some l ∧ l.transport = some t ∧
      t.path = none ∧ t.fingerprint = none ∧
      let p := Transport.ofClash (clashProxyFor (.plain "u" "u@x")
        ((xhttpInput .vmess).row (.plain "i" "n" "in" .vmess)))
      p.path = some "/x" ∧ p.fingerprint = some "chrome" := by
  refine ⟨rfl, _, _, _, rfl, readLink_vmessLink _ _, transport_vmess _ rfl rfl, ?_⟩
  rw [transport_clashProxyFor _ (by decide) rfl]
  decide

end XrayApi.Sublink
