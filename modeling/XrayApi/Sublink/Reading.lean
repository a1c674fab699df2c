import XrayApi.Sublink.Links

/-!
# Reading a share link

What a client takes from a share link: the parts of a URI for VLESS and Trojan, the fields of the
JSON object for VMess, the method, the password and the name for Shadowsocks. The host of a
Shadowsocks link is not escaped; its user part has no at sign and its fragment no number sign, so
the first at sign and the last number sign are the ones that were written.

Every link is read as it was built (`readLink_vlessLink` and its companions).
-/

set_option autoImplicit false

namespace XrayApi.Sublink

open Codec

/-- What was read from a link. -/
inductive SharedLink
  | uri (parts : Url.Parts)
  | vmess (fields : List (String × String))
  | shadowsocks (method password name : String)

/-- The part of a Shadowsocks link after the scheme. -/
def readShadowsocks (t : List Char) : Option SharedLink := do
  let (userinfo, rest) ← cut '@' t
  let text ← (Base64.decode .url userinfo).bind ofBytes
  let (method, password) ← cut ':' text.toList
  let (_, fragment) ← cutLast '#' rest
  let name ← Percent.unescape .pathSegment fragment
  some (.shadowsocks (String.ofList method) (String.ofList password) name)

/-- The part of a VMess link after the scheme. -/
def readVMess (t : List Char) : Option SharedLink := do
  let text ← (Base64.decodePadded t).bind ofBytes
  let fields ← Json.decodeObject text.toList
  some (.vmess fields)

def readLink (s : String) : Option SharedLink :=
  match cut ':' s.toList with
  | some (scheme, '/' :: '/' :: rest) =>
    if scheme = "vmess".toList then readVMess rest
    else if scheme = "ss".toList then readShadowsocks rest
    else (Url.parse s.toList).map .uri
  | _ => none

/-! ## Links are read as they were built -/

variable (u : User) (ib : Inbound)

theorem remark_ne_empty : remark u ib ≠ "" := by
  intro h
  have hlen := congrArg String.length h
  simp [remark] at hlen

theorem sorted_ne_nil {q : TextMap} {k v : String} (h : q.get k = some v) : q.sorted ≠ [] := by
  intro hnil
  rw [← TextMap.valueOf_sorted, hnil] at h
  cases h

/-- A link that is a URI. -/
theorem readLink_uri {scheme : String} (name host : String) {q : TextMap}
    (hscheme : scheme ≠ "" ∧ ':' ∉ scheme.toList ∧ '#' ∉ scheme.toList)
    (hother : scheme.toList ≠ "vmess".toList ∧ scheme.toList ≠ "ss".toList) (hq : q.sorted ≠ []) :
    readLink (String.ofList (Url.text ⟨scheme, some name, host, encodeSorted q, remark u ib⟩)) =
      some (.uri ⟨scheme, name, q.sorted, remark u ib⟩) := by
  have hparse : Url.parse (Url.text ⟨scheme, some name, host, encodeSorted q, remark u ib⟩) = _ :=
    Url.parse_text hscheme hq (remark_ne_empty u ib)
  have htext : Url.text ⟨scheme, some name, host, encodeSorted q, remark u ib⟩ = _ :=
    Url.text_eq hscheme.1 hq (remark_ne_empty u ib)
  rw [readLink, String.toList_ofList, hparse, htext, List.append_assoc, List.cons_append,
    cut_append hscheme.2.1]
  simp only [List.cons_append, if_neg hother.1, if_neg hother.2, Option.map_some]

theorem readLink_vlessLink :
    readLink (vlessLink u ib) =
      some (.uri ⟨"vless", u.uuid, (vlessParams ib).sorted, remark u ib⟩) := by
  have hget : (vlessParams ib).get "encryption" = some "none" := by
    simp [vlessParams, TextMap.get_setNonempty, TextMap.get_set]
  exact readLink_uri u ib u.uuid _ (by decide) (by decide) (sorted_ne_nil hget)

/-- The transport sets four parameters, and leaves the others. -/
theorem get_networkParams_of_notMem {k : String} (hk : k ∉ ["path", "host", "serviceName", "mode"])
    (q : TextMap) : (networkParams ib q).get k = q.get k := by
  simp only [List.mem_cons, List.not_mem_nil, or_false, not_or] at hk
  unfold networkParams
  cases ib.network <;> simp [TextMap.get_setNonempty, hk]

/-- The security layer sets four others. -/
theorem get_securityParams_of_notMem {k : String} (hk : k ∉ ["sni", "fp", "pbk", "sid"])
    (q : TextMap) : (securityParams ib q).get k = q.get k := by
  simp only [List.mem_cons, List.not_mem_nil, or_false, not_or] at hk
  unfold securityParams
  cases ib.security <;> simp [TextMap.get_setNonempty, hk]

/-- What neither of them sets. -/
theorem get_streamParams_of_notMem {k : String}
    (hk : k ∉ ["path", "host", "serviceName", "mode", "sni", "fp", "pbk", "sid"]) :
    (streamParams ib).get k =
      if k = "security" then some ib.security.text
      else if k = "type" then some ib.network.text else none := by
  have hnetwork : k ∉ ["path", "host", "serviceName", "mode"] := fun h =>
    hk (List.mem_append_left ["sni", "fp", "pbk", "sid"] h)
  have hsecurity : k ∉ ["sni", "fp", "pbk", "sid"] := fun h =>
    hk (List.mem_append_right ["path", "host", "serviceName", "mode"] h)
  rw [streamParams, get_securityParams_of_notMem ib hsecurity,
    get_networkParams_of_notMem ib hnetwork, TextMap.get_set, TextMap.get_set]
  rfl

theorem get_type_streamParams : (streamParams ib).get "type" = some ib.network.text :=
  get_streamParams_of_notMem ib (by decide)

theorem readLink_trojanLink :
    readLink (trojanLink u ib) =
      some (.uri ⟨"trojan", u.trojanPassword, (streamParams ib).sorted, remark u ib⟩) :=
  readLink_uri u ib u.trojanPassword _ (by decide) (by decide)
    (sorted_ne_nil (get_type_streamParams ib))

/-- The scheme of a link that is put together by hand. -/
theorem cut_scheme {scheme text : String} (htext : text.toList = scheme.toList ++ [':', '/', '/'])
    (hscheme : ':' ∉ scheme.toList) (t : List Char) :
    cut ':' (text.toList ++ t) = some (scheme.toList, '/' :: '/' :: t) := by
  rw [htext, List.append_assoc]
  exact cut_append hscheme _

theorem readLink_vmessLink :
    readLink (vmessLink u ib) = some (.vmess (vmessFields u ib).sorted) := by
  have hcut : ∀ t, cut ':' ("vmess://".toList ++ t) = some ("vmess".toList, '/' :: '/' :: t) :=
    cut_scheme (by decide) (by decide)
  have htext : (vmessLink u ib).toList = "vmess://".toList ++
      Base64.encodePadded (bytes (String.ofList (Json.encodeObject (vmessFields u ib).sorted))) :=
    String.toList_ofList
  have hbody : readVMess (Base64.encodePadded
      (bytes (String.ofList (Json.encodeObject (vmessFields u ib).sorted)))) =
        some (.vmess (vmessFields u ib).sorted) := by
    simp [readVMess, Json.decodeObject_encodeObject]
  rw [readLink, htext, hcut]
  exact hbody

/-- The method a link advertises. -/
def methodOf (ib : Inbound) : String := if ib.method = "" then "aes-256-gcm" else ib.method

theorem readLink_shadowsocksLink (hmethod : ':' ∉ (methodOf ib).toList) :
    readLink (shadowsocksLink u ib) =
      some (.shadowsocks (methodOf ib) u.trojanPassword (remark u ib)) := by
  have hcut : ∀ t, cut ':' ("ss://".toList ++ t) = some ("ss".toList, '/' :: '/' :: t) :=
    cut_scheme (by decide) (by decide)
  have huser : '@' ∉ Base64.encode .url (bytes (methodOf ib ++ ":" ++ u.trojanPassword)) :=
    Base64.notMem_encode (fun n hn => Base64.Alphabet.char_url_ne (by decide) hn) _
  have hfragment : '#' ∉ Percent.escape .pathSegment (remark u ib) :=
    Percent.notMem_escape (by decide) (by decide) (by decide) _
  have htext : (shadowsocksLink u ib).toList = "ss://".toList ++
      (Base64.encode .url (bytes (methodOf ib ++ ":" ++ u.trojanPassword)) ++
        '@' :: ((hostPort ib).toList ++ '#' :: Percent.escape .pathSegment (remark u ib))) := by
    refine String.toList_ofList.trans ?_
    simp only [List.append_assoc, List.cons_append, methodOf]
  have hsplit : cut ':' (methodOf ib ++ ":" ++ u.trojanPassword).toList =
      some ((methodOf ib).toList, u.trojanPassword.toList) := by
    rw [String.toList_append, String.toList_append, List.append_assoc]
    exact cut_append hmethod _
  have hbody : readShadowsocks
      (Base64.encode .url (bytes (methodOf ib ++ ":" ++ u.trojanPassword)) ++
        '@' :: ((hostPort ib).toList ++ '#' :: Percent.escape .pathSegment (remark u ib))) =
      some (.shadowsocks (methodOf ib) u.trojanPassword (remark u ib)) := by
    simp only [readShadowsocks, cut_append huser, Base64.decode_encode, Option.bind_some,
      ofBytes_bytes, hsplit, cutLast_append hfragment, Percent.unescape_escape,
      String.ofList_toList, Option.bind_eq_bind]
  have hss : "ss".toList ≠ "vmess".toList := by decide
  rw [readLink, htext, hcut]
  simp only [if_neg hss]
  exact hbody

end XrayApi.Sublink
