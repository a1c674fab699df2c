import XrayApi.Codec.Percent

/-!
# URLs

A URL with an authority and no path, as Go's `net/url` writes and reads it. `Url.text` is
`URL.String`; the parts of a URL that are not set here (an opaque part, a path) are left out.
`parse` cuts the text in the order in which `url.Parse` does: the fragment first, then the scheme,
the query and the user. Since each part is escaped for its place, the parts are read back as they
were (`parse_text`).
-/

set_option autoImplicit false

namespace XrayApi.Codec

open Percent

/-- A URL; the query is given as it is written. -/
structure Url where
  scheme : String
  user : Option String
  host : String
  rawQuery : List Char
  fragment : String

namespace Url

/-- The user and the at sign. -/
def userText (u : Url) : List Char :=
  match u.user with
  | some name => escape .userPassword name ++ ['@']
  | none => []

def hostText (u : Url) : List Char := escape .host u.host

/-- `URL.String`. -/
def text (u : Url) : List Char :=
  (if u.scheme ≠ "" then u.scheme.toList ++ [':'] else []) ++
  (if u.host ≠ "" ∨ u.user.isSome then '/' :: '/' :: (u.userText ++ u.hostText) else []) ++
  (if u.rawQuery ≠ [] then '?' :: u.rawQuery else []) ++
  (if u.fragment ≠ "" then '#' :: escape .fragment u.fragment else [])

/-- The parts of a URL that were read. -/
structure Parts where
  scheme : String
  user : String
  query : List (String × String)
  fragment : String
  deriving DecidableEq

/-- What stands before the first `c` and after it; all of the text and nothing without one. -/
def before (c : Char) (t : List Char) : List Char × List Char := (cut c t).getD (t, [])

theorem before_append {c : Char} {l : List Char} (h : c ∉ l) (r : List Char) :
    before c (l ++ c :: r) = (l, r) := by
  rw [before, cut_append h]
  rfl

theorem before_eq_self {c : Char} {l : List Char} (h : c ∉ l) : before c l = (l, []) := by
  rw [before, cut_eq_none h]
  rfl

/-- Read a URL with a scheme, a user and a host. -/
def parse (t : List Char) : Option Parts :=
  let (t, fragment) := before '#' t
  match cut ':' t with
  | some (scheme, '/' :: '/' :: rest) =>
    let (rest, query) := before '?' rest
    match cutLast '@' (before '/' rest).1 with
    | some (user, _) =>
      match unescape .userPassword user, parseQuery query, unescape .fragment fragment with
      | some user, some query, some fragment => some ⟨String.ofList scheme, user, query, fragment⟩
      | _, _, _ => none
    | none => none
  | _ => none

section RoundTrip

variable {scheme name host fragment : String} {query : List (String × String)}

/-- The parts of a URL from left to right. -/
theorem text_eq (hscheme : scheme ≠ "") (hquery : query ≠ []) (hfragment : fragment ≠ "") :
    text ⟨scheme, some name, host, encodeQuery query, fragment⟩ =
      (scheme.toList ++ ':' :: ('/' :: '/' :: ((escape .userPassword name ++
        '@' :: escape .host host) ++ '?' :: encodeQuery query))) ++
        '#' :: escape .fragment fragment := by
  have hraw : encodeQuery query ≠ [] := by
    intro h
    have hread := parseQuery_encodeQuery query
    rw [h] at hread
    exact hquery (Option.some.inj hread).symm
  simp [text, userText, hostText, hscheme, hraw, hfragment]

/-- A URL with a user, a query and a fragment is read as it was written. -/
theorem parse_text (hscheme : scheme ≠ "" ∧ ':' ∉ scheme.toList ∧ '#' ∉ scheme.toList)
    (hquery : query ≠ []) (hfragment : fragment ≠ "") :
    parse (text ⟨scheme, some name, host, encodeQuery query, fragment⟩) =
      some ⟨scheme, name, query, fragment⟩ := by
  -- what is escaped for its place has none of the signs that end it
  have hsigns : ∀ c ∈ ['@', '/', '?', '#'], (c ≠ '%' ∧ c ≠ '+') ∧ c.isAlphanum = false ∧
      c ∉ Mode.userPassword.marks ∧ c ∉ Mode.host.marks :=
    List.all_iff_forall_prop.1 (by decide)
  have huser : ∀ c ∈ ['@', '/', '?', '#'], c ∉ escape .userPassword name := by
    intro c hc
    obtain ⟨hsign, hletter, hmark, -⟩ := hsigns c hc
    exact notMem_escape hsign hletter hmark name
  have hhost : ∀ c ∈ ['@', '/', '?', '#'], c ∉ escape .host host := by
    intro c hc
    obtain ⟨hsign, hletter, -, hmark⟩ := hsigns c hc
    exact notMem_escape hsign hletter hmark host
  have hhash : '#' ∉ encodeQuery query :=
    notMem_encodeQuery (by decide) (by decide) (by decide) (by decide) query
  have hbefore : before '#' (text ⟨scheme, some name, host, encodeQuery query, fragment⟩) =
      (scheme.toList ++ ':' :: ('/' :: '/' :: ((escape .userPassword name ++
        '@' :: escape .host host) ++ '?' :: encodeQuery query)), escape .fragment fragment) := by
    rw [text_eq hscheme.1 hquery hfragment]
    refine before_append ?_ _
    simp [hscheme.2.2, huser '#', hhost '#', hhash]
  have hauthority : '?' ∉ escape .userPassword name ++ '@' :: escape .host host := by
    simp [huser '?', hhost '?']
  have hslash : '/' ∉ escape .userPassword name ++ '@' :: escape .host host := by
    simp [huser '/', hhost '/']
  simp only [parse, hbefore, cut_append hscheme.2.1, before_append hauthority,
    before_eq_self hslash, cutLast_append (hhost '@' (by simp)), unescape_escape,
    parseQuery_encodeQuery, String.ofList_toList]

end RoundTrip

end Url

end XrayApi.Codec
