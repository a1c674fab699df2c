import Mathlib.Data.List.Infix
import Mathlib.Logic.Function.Basic
import XrayApi.Domain.Types

/-!
# The gRPC boundary to a node

`buildUser` turns an account into the user record Xray stores, and `addUser` and `removeUser` are
the two `AlterInbound` calls with the error mapping of `mapAlterErr`. Xray itself is outside the
repository; `alterInbound` is an assumption about it, namely what the client relies on. A node is
its table of accounts, keyed by inbound tag and email. It knows every tag it is asked about and
compares emails letter by letter; adding a key that is present and removing one that is absent
change nothing and are answered with the texts `already exists` and `not found`, for every protocol;
any other request is carried out.
-/

set_option autoImplicit false

namespace XrayApi.Xray

/-- The identity to provision on an inbound. -/
structure Account where
  protocol : Protocol
  email : String
  uuid : ID
  password : String
  flow : String
  method : String
  deriving DecidableEq, Repr

inductive CipherType
  | aes128Gcm
  | aes256Gcm
  | chacha20Poly1305
  | xchacha20Poly1305
  | none
  deriving DecidableEq, Repr

/-- The protocol-specific part of a user record. -/
inductive ProtocolAccount
  | vless (id : ID) (flow : String)
  | vmess (id : ID)
  | trojan (password : String)
  | shadowsocks (password : String) (cipher : CipherType)
  deriving DecidableEq, Repr

/-- The record a node stores for a user. -/
structure ProtocolUser where
  email : String
  account : ProtocolAccount
  deriving DecidableEq, Repr

/-- One character of a `%q` text: the quote and the backslash are escaped, control characters are
written in hexadecimal or by their letter, and every other character stands for itself. Go escapes
those beyond ASCII that are not printable too; here they are not told apart. -/
def quoteChar (c : Char) : List Char :=
  if c.toNat = 34 then ['\\', c]
  else if c.toNat = 92 then ['\\', c]
  else if c.toNat = 7 then ['\\', 'a']
  else if c.toNat = 8 then ['\\', 'b']
  else if c.toNat = 9 then ['\\', 't']
  else if c.toNat = 10 then ['\\', 'n']
  else if c.toNat = 11 then ['\\', 'v']
  else if c.toNat = 12 then ['\\', 'f']
  else if c.toNat = 13 then ['\\', 'r']
  else if c.toNat < 32 ∨ c.toNat = 127 then
    ['\\', 'x', Nat.digitChar (c.toNat / 16), Nat.digitChar (c.toNat % 16)]
  else [c]

/-- The verb `%q`. -/
def quote (s : String) : String :=
  String.ofList (Char.ofNat 34 :: (s.toList.flatMap quoteChar ++ [Char.ofNat 34]))

/-- Method names and their aliases. -/
def shadowsocksCipher (method : String) : Except String CipherType :=
  if method = "aes-128-gcm" ∨ method = "aead_aes_128_gcm" then .ok .aes128Gcm
  else if method = "aes-256-gcm" ∨ method = "aead_aes_256_gcm" then .ok .aes256Gcm
  else if method = "chacha20-ietf-poly1305" ∨ method = "chacha20-poly1305" ∨
      method = "aead_chacha20_poly1305" then .ok .chacha20Poly1305
  else if method = "xchacha20-ietf-poly1305" ∨ method = "xchacha20-poly1305" ∨
      method = "aead_xchacha20_poly1305" then .ok .xchacha20Poly1305
  else if method = "none" ∨ method = "plain" then .ok .none
  else .error ("unsupported shadowsocks method " ++ quote method)

/-- The user record of an account. -/
def buildUser (acc : Account) : Except String ProtocolUser :=
  match acc.protocol with
  | .vless => .ok ⟨acc.email, .vless acc.uuid acc.flow⟩
  | .vmess => .ok ⟨acc.email, .vmess acc.uuid⟩
  | .trojan => .ok ⟨acc.email, .trojan acc.password⟩
  | .shadowsocks =>
    match shadowsocksCipher acc.method with
    | .ok cipher => .ok ⟨acc.email, .shadowsocks acc.password cipher⟩
    | .error e => .error e
  | .other name => .error ("unsupported protocol " ++ quote name)

/-! ## The account table of a node -/

/-- An inbound tag and an email. -/
abbrev Key : Type := String × String

/-- The accounts a node holds. -/
abbrev AccountTable : Type := Key → Option ProtocolUser

/-- The two operations of an `AlterInbound` request. -/
inductive Operation
  | add (user : ProtocolUser)
  | remove (email : String)

/-- The node's answer: `none` on success, else the error text. -/
def alterInbound (t : AccountTable) (tag : String) : Operation → Option String × AccountTable
  | .add user =>
    match t (tag, user.email) with
    | some _ => (some ("User " ++ user.email ++ " already exists."), t)
    | none => (none, Function.update t (tag, user.email) (some user))
  | .remove email =>
    match t (tag, email) with
    | some _ => (none, Function.update t (tag, email) none)
    | none => (some ("User " ++ email ++ " not found."), t)

/-! ## Error mapping -/

/-- Lower case of one character, over the range that can make an ASCII letter: the Latin capitals,
the dotted capital I and the Kelvin sign. -/
def lowerChar (c : Char) : Char :=
  if c = Char.ofNat 0x130 then 'i' else if c = Char.ofNat 0x212A then 'k' else c.toLower

/-- `strings.Contains(strings.ToLower(msg), sub)` for a lower-case ASCII `sub`. -/
def containsLower (msg sub : String) : Bool :=
  decide (sub.toList <:+: msg.toList.map lowerChar)

inductive AlterOp
  | opAdd
  | opRemove
  deriving DecidableEq, Repr

/-- Adding a user that exists and removing one that does not are successes. -/
def mapAlterErr (err : Option String) (op : AlterOp) : Except StoreErr Unit :=
  match err with
  | none => .ok ()
  | some msg =>
    match op with
    | .opAdd =>
      if containsLower msg "already exists" then .ok ()
      else .error (.internal ("alter inbound: " ++ msg))
    | .opRemove =>
      if containsLower msg "not found" || containsLower msg "not exist" then .ok ()
      else .error (.internal ("alter inbound: " ++ msg))

/-- Provision an account on an inbound tag. -/
def addUser (t : AccountTable) (tag : String) (acc : Account) :
    Except StoreErr Unit × AccountTable :=
  match buildUser acc with
  | .error e => (.error (.internal e), t)
  | .ok user => (mapAlterErr (alterInbound t tag (.add user)).1 .opAdd,
      (alterInbound t tag (.add user)).2)

/-- Remove a user from an inbound tag. -/
def removeUser (t : AccountTable) (tag email : String) : Except StoreErr Unit × AccountTable :=
  (mapAlterErr (alterInbound t tag (.remove email)).1 .opRemove,
    (alterInbound t tag (.remove email)).2)

/-! ## What the calls do -/

theorem containsLower_mid (a b sub : String) (h : sub.toList.map lowerChar = sub.toList) :
    containsLower (a ++ sub ++ b) sub = true := by
  simp only [containsLower, decide_eq_true_eq, String.toList_append, List.map_append, h]
  exact ⟨a.toList.map lowerChar, b.toList.map lowerChar, rfl⟩

theorem mapAlterErr_exists (email : String) :
    mapAlterErr (some ("User " ++ email ++ " already exists.")) .opAdd = .ok () := by
  have h := containsLower_mid ("User " ++ email ++ " ") "." "already exists" (by decide)
  have e : "User " ++ email ++ " " ++ "already exists" ++ "." =
      "User " ++ email ++ " already exists." := by
    simp only [String.append_assoc]
    rfl
  rw [e] at h
  simp [mapAlterErr, h]

theorem mapAlterErr_absent (email : String) :
    mapAlterErr (some ("User " ++ email ++ " not found.")) .opRemove = .ok () := by
  have h := containsLower_mid ("User " ++ email ++ " ") "." "not found" (by decide)
  have e : "User " ++ email ++ " " ++ "not found" ++ "." = "User " ++ email ++ " not found." := by
    simp only [String.append_assoc]
    rfl
  rw [e] at h
  simp [mapAlterErr, h]

theorem buildUser_email {acc : Account} {user : ProtocolUser} (h : buildUser acc = .ok user) :
    user.email = acc.email := by
  unfold buildUser at h
  split at h
  · cases h; rfl
  · cases h; rfl
  · cases h; rfl
  · split at h
    · cases h; rfl
    · cases h
  · cases h

/-- A removal succeeds and clears the key. -/
theorem removeUser_eq (t : AccountTable) (tag email : String) :
    removeUser t tag email = (.ok (), Function.update t (tag, email) none) := by
  cases h : t (tag, email) with
  | some user => simp only [removeUser, alterInbound, h, mapAlterErr]
  | none =>
      simp only [removeUser, alterInbound, h, mapAlterErr_absent, Prod.mk.injEq, true_and]
      rw [← h, Function.update_eq_self]

/-- An addition of a well-formed account succeeds and fills the key, keeping an account that is
already there; a malformed account changes nothing. -/
theorem addUser_eq (t : AccountTable) (tag : String) (acc : Account) :
    addUser t tag acc =
      match buildUser acc with
      | .error e => (.error (.internal e), t)
      | .ok user => (.ok (), Function.update t (tag, acc.email)
          (some ((t (tag, acc.email)).getD user))) := by
  cases hb : buildUser acc with
  | error e => simp only [addUser, hb]
  | ok user =>
      rw [← buildUser_email hb]
      cases h : t (tag, user.email) with
      | none => simp only [addUser, hb, alterInbound, h, mapAlterErr, Option.getD_none]
      | some old =>
          simp only [addUser, hb, alterInbound, h, mapAlterErr_exists, Option.getD_some,
            Prod.mk.injEq, true_and]
          rw [← h, Function.update_eq_self]

end XrayApi.Xray
