import XrayApi.Sublink.Transport
import XrayApi.Worker.Reconciler

/-!
# The credentials in both formats

`buildUser` makes the record a node stores for a user; a share link and a Clash proxy tell a client
what to send to it. `Advertised` is what a client takes from either format: the name it shows and
the account, with the cipher that `shadowsocksCipher` assigns to the method of Shadowsocks. For an
inbound whose payload was accepted, both formats advertise the account the node gets
(`advertised_eq_pushed`).
-/

set_option autoImplicit false

namespace XrayApi.Sublink

open Codec Service Store Worker Xray

/-- What a client takes from a format. -/
structure Advertised where
  name : String
  account : ProtocolAccount

/-- The account of a Shadowsocks method and a password. -/
def shadowsocksAccount (method password : String) : Option ProtocolAccount :=
  match shadowsocksCipher method with
  | .ok cipher => some (.shadowsocks password cipher)
  | .error _ => none

/-- From a link; a VLESS link without the parameter has no flow. -/
def SharedLink.advertised : SharedLink → Option Advertised
  | uri parts =>
    if parts.scheme = "vless" then
      some ⟨parts.fragment, .vless parts.user ((valueOf "flow" parts.query).getD "")⟩
    else if parts.scheme = "trojan" then some ⟨parts.fragment, .trojan parts.user⟩
    else none
  | vmess fields => do
    let name ← valueOf "ps" fields
    let id ← valueOf "id" fields
    some ⟨name, .vmess id⟩
  | shadowsocks method password name => (shadowsocksAccount method password).map (⟨name, ·⟩)

/-- From a Clash proxy. -/
def ClashProxy.advertised (p : ClashProxy) : Option Advertised :=
  if p.type = "vless" then some ⟨p.name, .vless p.uuid p.flow⟩
  else if p.type = "vmess" then some ⟨p.name, .vmess p.uuid⟩
  else if p.type = "trojan" then some ⟨p.name, .trojan p.password⟩
  else if p.type = "ss" then (shadowsocksAccount p.cipher p.password).map (⟨p.name, ·⟩)
  else none

/-- The account of a user on an inbound. -/
def accountOf (u : User) (ib : Inbound) : Option ProtocolAccount :=
  match ib.protocol with
  | .vless => some (.vless u.uuid ib.flow)
  | .vmess => some (.vmess u.uuid)
  | .trojan => some (.trojan u.trojanPassword)
  | .shadowsocks => shadowsocksAccount (methodOf ib) u.trojanPassword
  | .other _ => none

/-! ## What each format advertises -/

section Formats

variable (u : User) (ib : Inbound)

/-- The blocks of a transport leave what is advertised as it is. -/
theorem advertised_stream (p : ClashProxy) :
    (clashNetwork ib (clashSecurity ib p)).advertised = p.advertised := by
  unfold clashNetwork clashSecurity
  cases ib.network <;> cases ib.security <;> rfl

theorem advertised_clashProxyFor :
    (clashProxyFor u ib).advertised = (accountOf u ib).map (⟨remark u ib, ·⟩) := by
  unfold clashProxyFor accountOf
  cases ib.protocol with
  | shadowsocks => rfl
  | _ => exact advertised_stream ib _

theorem get_flow_vlessParams : ((vlessParams ib).get "flow").getD "" = ib.flow := by
  have hstream : (streamParams ib).get "flow" = none := get_streamParams_of_notMem ib (by decide)
  by_cases h : ib.flow = "" <;>
    simp [vlessParams, TextMap.get_setNonempty, TextMap.get_set, hstream, nonempty, h]

theorem advertised_vless :
    SharedLink.advertised (.uri ⟨"vless", u.uuid, (vlessParams ib).sorted, remark u ib⟩) =
      some ⟨remark u ib, .vless u.uuid ib.flow⟩ := by
  rw [SharedLink.advertised, if_pos rfl, TextMap.valueOf_sorted, get_flow_vlessParams]

theorem advertised_vmess :
    SharedLink.advertised (.vmess (vmessFields u ib).sorted) =
      some ⟨remark u ib, .vmess u.uuid⟩ := by
  have hname : (vmessFields u ib).get "ps" = some (remark u ib) :=
    (get_vmessFields_of_ne (by decide)).trans rfl
  have hid : (vmessFields u ib).get "id" = some u.uuid :=
    (get_vmessFields_of_ne (by decide)).trans rfl
  rw [SharedLink.advertised, TextMap.valueOf_sorted, TextMap.valueOf_sorted, hname, hid]
  rfl

variable {u ib}

/-- A link advertises the account. The method of Shadowsocks ends at the first colon. -/
theorem advertised_link {a : ProtocolAccount} (ha : accountOf u ib = some a)
    (hcolon : ib.protocol = .shadowsocks → ':' ∉ (methodOf ib).toList) :
    ∃ text l, link u ib = .ok text ∧ readLink text = some l ∧
      l.advertised = some ⟨remark u ib, a⟩ := by
  unfold accountOf at ha
  cases h : ib.protocol with
  | vless =>
      rw [h] at ha
      cases ha
      exact ⟨_, _, by rw [link, h], readLink_vlessLink u ib, advertised_vless u ib⟩
  | vmess =>
      rw [h] at ha
      cases ha
      exact ⟨_, _, by rw [link, h], readLink_vmessLink u ib, advertised_vmess u ib⟩
  | trojan =>
      rw [h] at ha
      cases ha
      exact ⟨_, _, by rw [link, h], readLink_trojanLink u ib, rfl⟩
  | shadowsocks =>
      rw [h] at ha
      refine ⟨_, _, by rw [link, h], readLink_shadowsocksLink u ib (hcolon h), ?_⟩
      exact congrArg (Option.map _) ha
  | other name =>
      rw [h] at ha
      cases ha

/-- The node gets the account when the inbound has its own method. -/
theorem buildUser_accountFor {a : ProtocolAccount} (ha : accountOf u ib = some a)
    (hmethod : ib.protocol = .shadowsocks → ib.method ≠ "") (ui : UserInbound) :
    buildUser (accountFor (desiredRow ui ib u)) = .ok ⟨u.email, a⟩ := by
  unfold accountOf at ha
  simp only [buildUser, accountFor, desiredRow]
  cases h : ib.protocol with
  | shadowsocks =>
      rw [h] at ha
      have hown : methodOf ib = ib.method := if_neg (hmethod h)
      simp only [hown, shadowsocksAccount] at ha
      cases hcipher : shadowsocksCipher ib.method with
      | ok cipher =>
          rw [hcipher] at ha
          cases ha
          rfl
      | error e =>
          rw [hcipher] at ha
          cases ha
  | other name =>
      rw [h] at ha
      cases ha
  | _ =>
      rw [h] at ha
      cases ha
      rfl

end Formats

/-! ## Accepted inbounds -/

section Accepted

variable {inp : InboundInput}

/-- Every method that is accepted has a cipher, and is neither empty nor has a colon. -/
theorem cipher_of_mem : ∀ m ∈ shadowsocksMethods,
    (∃ cipher, shadowsocksCipher m = .ok cipher) ∧ m ≠ "" ∧ ':' ∉ m.toList := by
  have hcipher : ∀ m ∈ shadowsocksMethods, (shadowsocksCipher m).isOk = true := by decide
  have htext : ∀ m ∈ shadowsocksMethods, m ≠ "" ∧ ':' ∉ m.toList := by decide
  intro m hm
  have hok := hcipher m hm
  cases h : shadowsocksCipher m with
  | ok cipher => exact ⟨⟨cipher, rfl⟩, htext m hm⟩
  | error e =>
      rw [h] at hok
      cases hok

/-- The row of an accepted payload has its own method. -/
theorem methodOf_row (h : inp.validate = .ok ()) (hss : inp.protocol = .shadowsocks)
    (existing : Inbound) : methodOf (inp.row existing) = inp.method :=
  if_neg (cipher_of_mem _ ((InboundInput.validate_eq_ok h).method hss)).2.1

/-- The row of an accepted payload has an account for every user. -/
theorem exists_accountOf (h : inp.validate = .ok ()) (u : User) (existing : Inbound) :
    ∃ a, accountOf u (inp.row existing) = some a := by
  have hvalid := InboundInput.validate_eq_ok h
  have hproto := hvalid.protocol
  have hib : (inp.row existing).protocol = inp.protocol := rfl
  unfold accountOf
  rw [hib]
  cases hp : inp.protocol with
  | shadowsocks =>
      obtain ⟨⟨cipher, hcipher⟩, -⟩ := cipher_of_mem _ (hvalid.method hp)
      simp only [methodOf_row h hp, shadowsocksAccount, hcipher]
      exact ⟨_, rfl⟩
  | other name =>
      rw [hp] at hproto
      cases hproto
  | _ => exact ⟨_, rfl⟩

end Accepted

/-- For every user and every inbound with an accepted payload, the record of the account is built,
and both formats advertise its account under a name that starts with its email. -/
theorem advertised_eq_pushed (u : User) {inp : InboundInput} (hvalid : inp.validate = .ok ())
    (existing : Inbound) (ui : UserInbound) :
    ∃ user text l, buildUser (accountFor (desiredRow ui (inp.row existing) u)) = .ok user ∧
      user.email = u.email ∧ link u (inp.row existing) = .ok text ∧ readLink text = some l ∧
      let label := if inp.remark = "" then inp.tag else inp.remark
      l.advertised = some ⟨user.email ++ "@" ++ label, user.account⟩ ∧
      (clashProxyFor u (inp.row existing)).advertised =
        some ⟨user.email ++ "@" ++ label, user.account⟩ := by
  obtain ⟨a, ha⟩ := exists_accountOf hvalid u existing
  have hmethod (h : inp.protocol = .shadowsocks) :=
    (cipher_of_mem _ ((InboundInput.validate_eq_ok hvalid).method h)).2
  obtain ⟨text, l, hlink, hread, hadv⟩ := advertised_link ha fun h => by
    rw [methodOf_row hvalid h]
    exact (hmethod h).2
  refine ⟨⟨u.email, a⟩, text, l, buildUser_accountFor ha (fun h => (hmethod h).1) ui, rfl, hlink,
    hread, hadv, ?_⟩
  rw [advertised_clashProxyFor, ha]
  rfl

/-- A Shadowsocks inbound. -/
def shadowsocksInput : InboundInput :=
  { xhttpInput .shadowsocks with network := .tcp, security := .none, method := "aes-128-gcm" }

theorem advertised_eq_pushed_shadowsocks :
    ∃ text l, link (.plain "u" "u@x")
        (shadowsocksInput.row (.plain "i" "n" "in" .shadowsocks)) = .ok text ∧
      readLink text = some l ∧
      l.advertised =
        some ⟨"u@x@in", .shadowsocks (User.plain "u" "u@x").trojanPassword .aes128Gcm⟩ := by
  obtain ⟨user, text, l, hbuild, -, hlink, hread, hadv, -⟩ :=
    advertised_eq_pushed (.plain "u" "u@x") (show shadowsocksInput.validate = .ok () from rfl)
      (.plain "i" "n" "in" .shadowsocks) ⟨"u", "i", .pending, ""⟩
  cases hbuild
  exact ⟨text, l, hlink, hread, hadv⟩

end XrayApi.Sublink
