import XrayApi.Domain.Types

/-!
# TLS material

The part of `internal/xray/client.go` that turns the PEM texts of a node into the configuration of a
connection. What the standard library makes of the texts is a parameter: parsing is a pure function
of its input. `buildTLSConfig_isOk` says that the outcome depends on the three texts only, so that a
configuration can be built exactly for the material that `validateTLSMaterial` accepts.
-/

set_option autoImplicit false

namespace XrayApi.Xray

/-- The parsers of `crypto/x509` and `crypto/tls`. -/
structure PemParser where
  /-- `CertPool.AppendCertsFromPEM`: a certificate was found. -/
  appendCertsFromPEM : String → Bool
  /-- `tls.X509KeyPair`, with the text of its error. -/
  x509KeyPair : String → String → Except String Unit

/-- How to reach a node. The dial timeout is never read and left out. -/
structure DialOptions where
  address : String
  port : Int
  tls : Bool
  tlsServerName : String
  tlsInsecure : Bool
  caCertPEM : String
  clientCertPEM : String
  clientKeyPEM : String
  deriving DecidableEq, Repr

/-- A `tls.Config`; the minimum version is a constant, pool and certificate are given by their PEM
texts. -/
structure TLSConfig where
  serverName : String
  insecureSkipVerify : Bool
  rootCAs : Option String
  certificates : Option (String × String)
  deriving DecidableEq, Repr

variable (pem : PemParser)

/-- The pool of the pinned CA, if there is one. -/
def rootCAs (ca : String) : Except String (Option String) :=
  if ca = "" then .ok none
  else if pem.appendCertsFromPEM ca = false then
    .error "ca_cert: no valid certificate found in PEM"
  else .ok (some ca)

/-- The client certificate, if there is one. -/
def certificates (cert key : String) : Except String (Option (String × String)) :=
  if cert ≠ "" ∨ key ≠ "" then
    if cert = "" ∨ key = "" then .error "client cert and key must be provided together"
    else
      match pem.x509KeyPair cert key with
      | .error e => .error ("client cert/key: " ++ e)
      | .ok _ => .ok (some (cert, key))
  else .ok none

def buildTLSConfig (opts : DialOptions) : Except String TLSConfig :=
  match rootCAs pem opts.caCertPEM with
  | .error e => .error e
  | .ok pool =>
    match certificates pem opts.clientCertPEM opts.clientKeyPEM with
    | .error e => .error e
    | .ok certs => .ok ⟨opts.tlsServerName, opts.tlsInsecure, pool, certs⟩

def validateTLSMaterial (ca cert key : String) : Except String Unit :=
  match buildTLSConfig pem ⟨"", 0, true, "", false, ca, cert, key⟩ with
  | .error e => .error e
  | .ok _ => .ok ()

/-- The options `DefaultDial` makes of a node's row. -/
def dialOptions (n : Node) : DialOptions where
  address := n.apiAddress
  port := n.apiPort
  tls := n.apiTLS
  tlsServerName := n.apiTLSServerName
  tlsInsecure := n.apiTLSInsecure
  caCertPEM := n.apiCACert
  clientCertPEM := n.apiClientCert
  clientKeyPEM := n.apiClientKey

/-- The material of a node passes the check. -/
def Usable (n : Node) : Prop :=
  validateTLSMaterial pem n.apiCACert n.apiClientCert n.apiClientKey = .ok ()

variable {pem}

/-- Address, port, server name and flags have no part in the outcome. -/
theorem buildTLSConfig_isOk {opts : DialOptions} :
    (∃ tc, buildTLSConfig pem opts = .ok tc) ↔
      validateTLSMaterial pem opts.caCertPEM opts.clientCertPEM opts.clientKeyPEM = .ok () := by
  unfold validateTLSMaterial buildTLSConfig
  cases rootCAs pem opts.caCertPEM with
  | error e => simp
  | ok pool =>
      cases certificates pem opts.clientCertPEM opts.clientKeyPEM with
      | error e => simp
      | ok certs => simp

/-- A row without any PEM text needs no parser. -/
theorem usable_of_empty {n : Node} (hca : n.apiCACert = "") (hcert : n.apiClientCert = "")
    (hkey : n.apiClientKey = "") : Usable pem n := by
  unfold Usable
  rw [hca, hcert, hkey]
  rfl

end XrayApi.Xray
