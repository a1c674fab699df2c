import XrayApi.Codec.Base64
import XrayApi.Codec.Json
import XrayApi.Codec.Url
import XrayApi.Xray.Client

/-!
# Share links

`internal/sublink/links.go`: the share URI of a user on an inbound, and `clashProxyFor` of
`internal/sublink/clash.go`, the entry for the same inbound in a Clash configuration. A map of the
source is a `TextMap`; `url.Values` has one value per key here, as the source only sets keys. Links
are texts, with the escaping of the Go library (`Codec`); a Clash proxy is the record before it is
written as YAML.
-/

set_option autoImplicit false

namespace XrayApi

/-- The text of a network. -/
def Network.text : Network → String
  | tcp => "tcp"
  | ws => "ws"
  | grpc => "grpc"
  | httpupgrade => "httpupgrade"
  | xhttp => "xhttp"
  | other text => text

/-- The text of a security. -/
def Security.text : Security → String
  | none => "none"
  | tls => "tls"
  | reality => "reality"
  | other text => text

namespace Sublink

open Codec

def remark (u : User) (ib : Inbound) : String :=
  u.email ++ "@" ++ (if ib.remark = "" then ib.tag else ib.remark)

/-- `net.JoinHostPort`: a host with a colon is put in brackets. -/
def joinHostPort (host port : String) : String :=
  if ':' ∈ host.toList then "[" ++ host ++ "]:" ++ port else host ++ ":" ++ port

def hostPort (ib : Inbound) : String := joinHostPort ib.publicHost (toString ib.publicPort)

/-! ## Query parameters -/

/-- The parameters of the transport. -/
def networkParams (ib : Inbound) (q : TextMap) : TextMap :=
  match ib.network with
  | .ws => (q.setNonempty "path" ib.wsPath).setNonempty "host" ib.hostHeader
  | .httpupgrade => (q.setNonempty "path" ib.wsPath).setNonempty "host" ib.hostHeader
  | .grpc => q.setNonempty "serviceName" ib.grpcServiceName
  | .xhttp =>
    ((q.setNonempty "path" ib.wsPath).setNonempty "host" ib.hostHeader).setNonempty "mode"
      ib.xhttpMode
  | _ => q

/-- The parameters of the security layer. -/
def securityParams (ib : Inbound) (q : TextMap) : TextMap :=
  match ib.security with
  | .tls => (q.setNonempty "sni" ib.sni).setNonempty "fp" ib.fingerprint
  | .reality =>
    (((q.setNonempty "sni" ib.sni).setNonempty "fp" ib.fingerprint).setNonempty "pbk"
      ib.realityPublicKey).setNonempty "sid" ib.realityShortID
  | _ => q

def streamParams (ib : Inbound) : TextMap :=
  securityParams ib (networkParams ib
    ((TextMap.empty.set "type" ib.network.text).set "security" ib.security.text))

def encodeSorted (q : TextMap) : List Char := Percent.encodeQuery q.sorted

/-! ## Links -/

def vlessParams (ib : Inbound) : TextMap :=
  ((streamParams ib).set "encryption" "none").setNonempty "flow" ib.flow

def vlessLink (u : User) (ib : Inbound) : String :=
  String.ofList (Url.text
    ⟨"vless", some u.uuid, hostPort ib, encodeSorted (vlessParams ib), remark u ib⟩)

def trojanLink (u : User) (ib : Inbound) : String :=
  String.ofList (Url.text
    ⟨"trojan", some u.trojanPassword, hostPort ib, encodeSorted (streamParams ib), remark u ib⟩)

def shadowsocksLink (u : User) (ib : Inbound) : String :=
  let method := if ib.method = "" then "aes-256-gcm" else ib.method
  let userinfo := Base64.encode .url (bytes (method ++ ":" ++ u.trojanPassword))
  String.ofList ("ss://".toList ++ userinfo ++ '@' :: (hostPort ib).toList ++
    '#' :: Percent.escape .pathSegment (remark u ib))

def tlsField : Security → String
  | .none => ""
  | s => s.text

/-- The fields a VMess link has for every inbound. -/
def vmessBase (u : User) (ib : Inbound) : TextMap where
  entries := [("v", "2"), ("ps", remark u ib), ("add", ib.publicHost),
    ("port", toString ib.publicPort), ("id", u.uuid), ("aid", "0"), ("scy", "auto"),
    ("net", ib.network.text), ("type", "none"), ("tls", tlsField ib.security)]
  distinct := by simp

/-- The fields of the transport; they are set even when they are empty. -/
def vmessNetwork (ib : Inbound) (m : TextMap) : TextMap :=
  match ib.network with
  | .ws => (m.set "path" ib.wsPath).set "host" ib.hostHeader
  | .httpupgrade => (m.set "path" ib.wsPath).set "host" ib.hostHeader
  | .grpc => m.set "path" ib.grpcServiceName
  | _ => m

def vmessFields (u : User) (ib : Inbound) : TextMap :=
  let m := vmessNetwork ib (vmessBase u ib)
  if ib.security ≠ .none ∧ ib.sni ≠ "" then m.set "sni" ib.sni else m

def vmessLink (u : User) (ib : Inbound) : String :=
  String.ofList ("vmess://".toList ++
    Base64.encodePadded (bytes (String.ofList (Json.encodeObject (vmessFields u ib).sorted))))

/-- The share link of a user on an inbound. -/
def link (u : User) (ib : Inbound) : Except String String :=
  match ib.protocol with
  | .vless => .ok (vlessLink u ib)
  | .trojan => .ok (trojanLink u ib)
  | .vmess => .ok (vmessLink u ib)
  | .shadowsocks => .ok (shadowsocksLink u ib)
  | .other name => .error ("unsupported protocol " ++ Xray.quote name)

/-! ## Clash -/

/-- The options of a websocket; a key that is not set is `none`. -/
structure WSOpts where
  path : Option String
  headers : Option TextMap

/-- An entry of a Clash configuration. An option block that is not set is `none`. -/
structure ClashProxy where
  name : String
  type : String
  server : String
  port : Int
  uuid : String
  password : String
  alterID : Option Int
  cipher : String
  flow : String
  udp : Bool
  tls : Bool
  servername : String
  sni : String
  network : String
  clientFP : String
  realityOpts : Option TextMap
  wsOpts : Option WSOpts
  grpcOpts : Option TextMap
  xhttpOpts : Option TextMap

/-- The fields every entry has; the others are the zero values. -/
def clashBase (u : User) (ib : Inbound) : ClashProxy where
  name := remark u ib
  type := ""
  server := ib.publicHost
  port := ib.publicPort
  uuid := ""
  password := ""
  alterID := none
  cipher := ""
  flow := ""
  udp := true
  tls := false
  servername := ""
  sni := ""
  network := ib.network.text
  clientFP := ""
  realityOpts := none
  wsOpts := none
  grpcOpts := none
  xhttpOpts := none

def clashSecurity (ib : Inbound) (p : ClashProxy) : ClashProxy :=
  match ib.security with
  | .tls =>
    { p with tls := true, sni := ib.sni, servername := ib.sni, clientFP := ib.fingerprint }
  | .reality =>
    { p with
      tls := true
      servername := ib.sni
      clientFP := ib.fingerprint
      realityOpts := some ((TextMap.empty.setNonempty "public-key" ib.realityPublicKey).setNonempty
        "short-id" ib.realityShortID) }
  | _ => p

/-- The websocket options, unless none is set. -/
def wsOptsFor (ib : Inbound) : Option WSOpts :=
  if ib.wsPath = "" ∧ ib.hostHeader = "" then none
  else some ⟨nonempty ib.wsPath, (nonempty ib.hostHeader).map (TextMap.empty.set "Host")⟩

/-- The XHTTP options, unless none is set. -/
def xhttpOptsFor (ib : Inbound) : Option TextMap :=
  let xh := ((TextMap.empty.setNonempty "path" ib.wsPath).setNonempty "host"
    ib.hostHeader).setNonempty "mode" ib.xhttpMode
  if xh.entries = [] then none else some xh

def clashNetwork (ib : Inbound) (p : ClashProxy) : ClashProxy :=
  match ib.network with
  | .ws => { p with wsOpts := wsOptsFor ib }
  | .httpupgrade => { p with wsOpts := wsOptsFor ib }
  | .grpc =>
    { p with
      grpcOpts := (nonempty ib.grpcServiceName).map (TextMap.empty.set "grpc-service-name") }
  | .xhttp => { p with xhttpOpts := xhttpOptsFor ib }
  | _ => p

/-- The entry of an inbound; one for Shadowsocks has no block for the transport. -/
def clashProxyFor (u : User) (ib : Inbound) : ClashProxy :=
  let p := clashBase u ib
  let stream := fun p => clashNetwork ib (clashSecurity ib p)
  match ib.protocol with
  | .vless => stream { p with type := "vless", uuid := u.uuid, flow := ib.flow }
  | .vmess => stream { p with type := "vmess", uuid := u.uuid, alterID := some 0, cipher := "auto" }
  | .trojan => stream { p with type := "trojan", password := u.trojanPassword }
  | .shadowsocks =>
    { p with
      type := "ss"
      password := u.trojanPassword
      cipher := if ib.method = "" then "aes-256-gcm" else ib.method
      network := "" }
  | .other _ => stream p

end Sublink

end XrayApi
