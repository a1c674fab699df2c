import XrayApi.Codec.Fields
import XrayApi.Sublink.Credentials

/-!
# Bundles of all inbounds of a user

`internal/sublink/v2ray.go` and `Clash` of `internal/sublink/clash.go`: what a subscription serves.
A Clash configuration is the record before it is written as YAML.

Both put together one entry for each inbound, and both rest on something the store does not keep. A
Clash configuration names its proxies by remark or tag, which may be the same on two nodes
(`clash_wellFormed_iff`). The links of a bundle stand on lines of their own, and the one for
Shadowsocks has the host as it was stored (`v2Ray_decodes_iff`).
-/

set_option autoImplicit false

namespace XrayApi.Sublink

open Codec Service

/-- A row that an accepted payload wrote. -/
def Accepted (ib : Inbound) : Prop :=
  ∃ (inp : InboundInput) (existing : Inbound), inp.validate = .ok () ∧ ib = inp.row existing

/-! ## Clash -/

structure ClashGroup where
  name : String
  type : String
  proxies : List String
  deriving DecidableEq, Repr

structure ClashConfig where
  proxies : List ClashProxy
  proxyGroups : List ClashGroup
  rules : List String

def clash (u : User) (inbounds : List Inbound) : ClashConfig :=
  let proxies := inbounds.map (clashProxyFor u)
  let names := proxies.map ClashProxy.name
  let names := if names.length = 0 then ["DIRECT"] else names
  ⟨proxies, [⟨"PROXY", "select", names⟩], ["MATCH,PROXY"]⟩

/-- What a client needs of a configuration to tell the proxies apart. -/
structure ClashConfig.WellFormed (cfg : ClashConfig) (u : User)
    (inbounds : List Inbound) : Prop where
  proxies : cfg.proxies = inbounds.map (clashProxyFor u)
  distinct : (cfg.proxies.map ClashProxy.name).Nodup
  reserved : ∀ p ∈ cfg.proxies, p.name ≠ "PROXY" ∧ p.name ≠ "DIRECT"
  groups : cfg.proxyGroups = [⟨"PROXY", "select",
    if inbounds = [] then ["DIRECT"] else cfg.proxies.map ClashProxy.name⟩]

/-- The remark of an inbound, its tag if there is none. -/
def label (ib : Inbound) : String := if ib.remark = "" then ib.tag else ib.remark

section Names

variable (u : User) (ib : Inbound)

theorem name_clashProxyFor : (clashProxyFor u ib).name = u.email ++ "@" ++ label ib := by
  have hstream : ∀ p : ClashProxy, (clashNetwork ib (clashSecurity ib p)).name = p.name := by
    intro p
    unfold clashNetwork clashSecurity
    cases ib.network <;> cases ib.security <;> rfl
  unfold clashProxyFor
  cases ib.protocol with
  | shadowsocks => rfl
  | _ => exact hstream _

theorem name_ne_reserved {name : String} (h : '@' ∉ name.toList) :
    (clashProxyFor u ib).name ≠ name := by
  rintro rfl
  apply h
  rw [name_clashProxyFor]
  simp

theorem label_injective {a b : String} (h : u.email ++ "@" ++ a = u.email ++ "@" ++ b) : a = b := by
  have hlist := congrArg String.toList h
  simp only [String.toList_append] at hlist
  exact String.toList_inj.1 (List.append_cancel_left hlist)

end Names

/-- A configuration is well formed exactly when the labels of the inbounds are distinct. -/
theorem clash_wellFormed_iff (u : User) (inbounds : List Inbound) :
    (clash u inbounds).WellFormed u inbounds ↔ (inbounds.map label).Nodup := by
  have hnames : (inbounds.map (clashProxyFor u)).map ClashProxy.name =
      (inbounds.map label).map fun l => u.email ++ "@" ++ l := by
    rw [List.map_map, List.map_map]
    exact List.map_congr_left fun ib _ => name_clashProxyFor u ib
  have hdistinct : ((inbounds.map (clashProxyFor u)).map ClashProxy.name).Nodup ↔
      (inbounds.map label).Nodup := by
    rw [hnames]
    exact List.nodup_map_iff fun _ _ => label_injective u
  rw [← hdistinct]
  refine ⟨fun h => h.distinct, fun h => ⟨rfl, h, ?_, ?_⟩⟩
  · intro p hp
    obtain ⟨ib, -, rfl⟩ := List.mem_map.1 hp
    exact ⟨name_ne_reserved u ib (by decide), name_ne_reserved u ib (by decide)⟩
  · unfold clash
    simp only [List.length_map, List.length_eq_zero_iff]

/-- Two nodes with inbounds of one tag: the proxies have one name. -/
theorem clash_repeats_name :
    ∃ a b : Inbound, Accepted a ∧ Accepted b ∧ a.id ≠ b.id ∧ a.nodeID ≠ b.nodeID ∧
      (clashProxyFor (.plain "u" "u@x") a).name = (clashProxyFor (.plain "u" "u@x") b).name ∧
      ¬ (clash (.plain "u" "u@x") [a, b]).WellFormed (.plain "u" "u@x") [a, b] := by
  refine ⟨(xhttpInput .vless).row (.plain "i" "n" "in" .vless),
    (xhttpInput .vless).row (.plain "j" "m" "in" .vless), ⟨_, _, rfl, rfl⟩, ⟨_, _, rfl, rfl⟩,
    by decide, by decide, rfl, ?_⟩
  intro h
  exact absurd h.distinct (by decide)

/-! ## V2Ray -/

/-- The line separator. -/
def newline : Char := Char.ofNat 10

def v2Ray (u : User) (inbounds : List Inbound) : Except String String := do
  let links ← inbounds.mapM (link u)
  let joined := String.ofList ([newline].intercalate (links.map String.toList))
  pure (String.ofList (Base64.encodePadded (bytes joined)))

/-- The lines of a bundle, as a client gets them. -/
def linesOf (bundle : String) : Option (List String) := do
  let joined ← (Base64.decodePadded bundle.toList).bind ofBytes
  pure ((joined.toList.splitOn newline).map String.ofList)

/-- The link of an inbound of a known protocol. -/
def linkText (u : User) (ib : Inbound) : String :=
  match link u ib with
  | .ok text => text
  | .error _ => ""

section Lines

variable {u : User} {ib : Inbound}

theorem newline_notMem_escape (mode : Percent.Mode) (s : String) :
    newline ∉ Percent.escape mode s := by
  refine Percent.notMem_escape (by decide) (by decide) ?_ s
  cases mode <;> decide

theorem newline_notMem_url {scheme : String} (hscheme : newline ∉ scheme.toList)
    (name host : String) (q : TextMap) (fragment : String) :
    newline ∉ Url.text ⟨scheme, some name, host, encodeSorted q, fragment⟩ := by
  have hmarks : ∀ c ∈ [':', '/', '@', '?', '#'], newline ≠ c :=
    List.all_iff_forall_prop.1 (by decide)
  have hquery : newline ∉ encodeSorted q :=
    Percent.notMem_encodeQuery (by decide) (by decide) (by decide) (by decide) _
  simp only [List.mem_cons, List.not_mem_nil, or_false, forall_eq_or_imp, forall_eq] at hmarks
  unfold Url.text Url.userText Url.hostText
  split_ifs <;> simp [hscheme, hquery, hmarks, newline_notMem_escape]

theorem newline_mem_hostPort :
    newline ∈ (hostPort ib).toList ↔ newline ∈ ib.publicHost.toList := by
  have hport : newline ∉ (toString ib.publicPort).toList :=
    notMem_repr ib.publicPort (by decide) (by decide)
  have hmarks : newline ∉ "[".toList ∧ newline ∉ "]:".toList ∧ newline ∉ ":".toList := by decide
  unfold hostPort joinHostPort
  split_ifs
  · simp only [String.toList_append, List.mem_append, hport, hmarks, or_false, false_or]
  · simp only [String.toList_append, List.mem_append, hport, hmarks, or_false]

theorem newline_notMem_vlessLink : newline ∉ (vlessLink u ib).toList := by
  have htext : (vlessLink u ib).toList = Url.text _ := String.toList_ofList
  rw [htext]
  exact newline_notMem_url (by decide) _ _ _ _

theorem newline_notMem_trojanLink : newline ∉ (trojanLink u ib).toList := by
  have htext : (trojanLink u ib).toList = Url.text _ := String.toList_ofList
  rw [htext]
  exact newline_notMem_url (by decide) _ _ _ _

theorem newline_notMem_vmessLink : newline ∉ (vmessLink u ib).toList := by
  have htext : (vmessLink u ib).toList = "vmess://".toList ++ _ := String.toList_ofList
  rw [htext, List.mem_append, not_or]
  exact ⟨by decide, Base64.notMem_encodePadded (by decide) (by decide) _⟩

theorem newline_mem_shadowsocksLink :
    newline ∈ (shadowsocksLink u ib).toList ↔ newline ∈ ib.publicHost.toList := by
  have huser : ∀ l, newline ∉ Base64.encode .url l := Base64.notMem_encode (by decide)
  have hmarks : newline ∉ "ss://".toList ∧ newline ≠ '@' ∧ newline ≠ '#' := by decide
  have htext : (shadowsocksLink u ib).toList = _ := String.toList_ofList
  rw [htext]
  simp only [List.mem_append, List.mem_cons, huser, hmarks, newline_notMem_escape,
    newline_mem_hostPort, or_false, false_or]

/-- Only the link for Shadowsocks has the host as it was stored. -/
theorem newline_mem_linkText : newline ∈ (linkText u ib).toList ↔
    ib.protocol = .shadowsocks ∧ newline ∈ ib.publicHost.toList := by
  unfold linkText link
  cases ib.protocol with
  | vless => exact iff_of_false newline_notMem_vlessLink fun h => nomatch h.1
  | trojan => exact iff_of_false newline_notMem_trojanLink fun h => nomatch h.1
  | vmess => exact iff_of_false newline_notMem_vmessLink fun h => nomatch h.1
  | shadowsocks =>
      exact newline_mem_shadowsocksLink.trans ⟨fun h => ⟨rfl, h⟩, And.right⟩
  | other name => exact iff_of_false List.not_mem_nil fun h => nomatch h.1

theorem link_eq_ok (h : Accepted ib) : link u ib = .ok (linkText u ib) := by
  obtain ⟨inp, existing, hvalid, rfl⟩ := h
  have hproto : (inp.row existing).protocol.valid = true :=
    (InboundInput.validate_eq_ok hvalid).protocol
  unfold linkText link
  cases hp : (inp.row existing).protocol with
  | other name =>
      rw [hp] at hproto
      cases hproto
  | _ => rfl

theorem mapM_link {inbounds : List Inbound} (h : ∀ ib ∈ inbounds, Accepted ib) :
    inbounds.mapM (link u) = .ok (inbounds.map (linkText u)) := by
  induction inbounds with
  | nil => rfl
  | cons ib inbounds ih =>
      rw [List.forall_mem_cons] at h
      rw [List.mapM_cons, link_eq_ok h.1, ih h.2]
      rfl

end Lines

theorem linesOf_v2Ray (u : User) {inbounds : List Inbound} (h : ∀ ib ∈ inbounds, Accepted ib) :
    ∃ bundle, v2Ray u inbounds = .ok bundle ∧ linesOf bundle =
      some ((([newline].intercalate (inbounds.map fun ib => (linkText u ib).toList)).splitOn
        newline).map String.ofList) := by
  refine ⟨_, by rw [v2Ray, mapM_link h]; rfl, ?_⟩
  simp [linesOf, Function.comp_def]

/-- A bundle has the links on its lines, in their order, if and only if no Shadowsocks inbound has a
host with a line break. -/
theorem v2Ray_decodes_iff (u : User) {inbounds : List Inbound} (hne : inbounds ≠ [])
    (h : ∀ ib ∈ inbounds, Accepted ib) :
    (∃ bundle lines, v2Ray u inbounds = .ok bundle ∧ linesOf bundle = some lines ∧
      lines.map Except.ok = inbounds.map (link u)) ↔
    ∀ ib ∈ inbounds, ib.protocol = .shadowsocks → newline ∉ ib.publicHost.toList := by
  obtain ⟨bundle, hbundle, hlines⟩ := linesOf_v2Ray u h
  have hlinks : inbounds.map (link u) = (inbounds.map (linkText u)).map Except.ok := by
    rw [List.map_map]
    exact List.map_congr_left fun ib hib => link_eq_ok (h ib hib)
  have hclean : (∀ ib ∈ inbounds, ib.protocol = .shadowsocks → newline ∉ ib.publicHost.toList) ↔
      ∀ t ∈ inbounds.map fun ib => (linkText u ib).toList, newline ∉ t := by
    rw [List.forall_mem_map]
    refine forall₂_congr fun ib _ => ?_
    rw [newline_mem_linkText, not_and]
  -- the lines are the links again exactly when no link has a line break in it
  rw [hclean, ← splitOn_intercalate_iff (by simpa using hne)]
  constructor
  · rintro ⟨bundle', lines, hbundle', hlines', heq⟩
    rw [hbundle] at hbundle'
    cases hbundle'
    rw [hlines] at hlines'
    cases hlines'
    have hok : Function.Injective (Except.ok : String → Except String String) :=
      fun _ _ h => Except.ok.inj h
    have htexts := congrArg (List.map String.toList)
      (List.map_injective_iff.2 hok (heq.trans hlinks))
    simpa [Function.comp_def] using htexts
  · intro heq
    refine ⟨bundle, _, hbundle, hlines, ?_⟩
    rw [heq, hlinks]
    simp

/-- A Shadowsocks inbound of the host. -/
def shadowsocksOn (host : String) : Inbound :=
  InboundInput.row { shadowsocksInput with publicHost := host } (.plain "i" "n" "in" .shadowsocks)

theorem accepted_shadowsocksOn {host : String} (h : host ≠ "") : Accepted (shadowsocksOn host) := by
  have hvalid : InboundInput.validate { shadowsocksInput with publicHost := host } =
      if host = "" then .error (.validation "public_host is required") else .ok () := rfl
  exact ⟨_, _, hvalid.trans (if_neg h), rfl⟩

theorem v2Ray_decodes_iff_two :
    ∃ bundle lines, v2Ray (.plain "u" "u@x") [shadowsocksOn "h", shadowsocksOn "::1"] = .ok bundle ∧
      linesOf bundle = some lines ∧
      lines.map Except.ok =
        [shadowsocksOn "h", shadowsocksOn "::1"].map (link (.plain "u" "u@x")) :=
  (v2Ray_decodes_iff _ (by decide) (by
    intro ib hib
    simp only [List.mem_cons, List.not_mem_nil, or_false] at hib
    obtain rfl | rfl := hib <;> exact accepted_shadowsocksOn (by decide))).2 (by decide)

/-- A line break in the host: the only link of the bundle stands on two lines. -/
theorem shadowsocks_host_breaks_line :
    Accepted (shadowsocksOn "a\nb") ∧
    ∃ bundle lines, v2Ray (.plain "u" "u@x") [shadowsocksOn "a\nb"] = .ok bundle ∧
      linesOf bundle = some lines ∧ lines.length = 2 := by
  have hvalid : Accepted (shadowsocksOn "a\nb") := accepted_shadowsocksOn (by decide)
  obtain ⟨bundle, hbundle, hlines⟩ := linesOf_v2Ray (.plain "u" "u@x")
    (List.forall_mem_singleton.2 hvalid)
  exact ⟨hvalid, bundle, _, hbundle, hlines, by decide +kernel⟩

end XrayApi.Sublink
