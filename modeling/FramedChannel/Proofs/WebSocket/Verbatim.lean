import FramedChannel.Proofs.WebSocket.Grammar
import FramedChannel.Proofs.WebSocket.Negotiation

/-!
# Values that are read as they are written

A header value is read without the white space around it.  What a reply says has
none there, with one exception: an origin whose last header line is empty ends in
a comma and a space.

* `trimmed_acceptKey` and `trimmed_location` are the values of the server, and
  `trimmed_origin` is the origin, of which `readBack` is what a client reads.
* `acceptMeant` and `draftMeant` are the replies as they are meant, and
  `readsAs_acceptMeant` and `readsAs_draftMeant` say that they are read so.
-/

namespace FramedChannel

theorem Text.trim_eq_self_iff {text : List Char} :
    trim text = text ↔
      (∀ c ∈ text.head?, isBlank c = false) ∧ ∀ c ∈ text.getLast?, isBlank c = false := by
  rw [trim_eq_iff]
  constructor
  · intro h
    exact ⟨h.head, h.last⟩
  · rintro ⟨hhead, hlast⟩
    refine ⟨⟨[], [], ?_, List.forall_mem_nil _, List.forall_mem_nil _⟩, hhead, hlast⟩
    rw [List.append_nil, List.nil_append]

/-- White space behind a text that has none around it is cut off. -/
theorem Text.trim_concat {text : List Char} {blank : Char} (hblank : isBlank blank = true)
    (hhead : ∀ c ∈ text.head?, isBlank c = false)
    (hlast : ∀ c ∈ text.getLast?, isBlank c = false) : trim (text ++ [blank]) = text := by
  rw [trim_eq_iff]
  exact ⟨⟨[], [blank], rfl, List.forall_mem_nil _, List.forall_mem_singleton.2 hblank⟩, hhead, hlast⟩

namespace WebSocket

/-! ## White space around values -/

theorem trimmed_eq_self_iff {text : String} :
    trimmed text = text ↔ Text.trim text.toList = text.toList := by
  rw [trimmed, ← String.toList_inj, String.toList_ofList]

theorem trimmed_acceptKey (key : String) : trimmed (acceptKey key) = acceptKey key := by
  have hsolid : ∀ c ∈ (acceptKey key).toList, Text.isBlank c = false := by
    intro c hc
    rw [acceptKey, String.toList_ofList] at hc
    have halphabet : ('=' :: Base64.alphabet).any Text.isBlank = false := by decide
    exact Bool.eq_false_iff.2 (List.any_eq_false.1 halphabet c (Base64.mem_of_mem_encode hc))
  rw [trimmed_eq_self_iff, Text.trim_eq_self_iff]
  exact ⟨fun c hc => hsolid c (List.mem_of_mem_head? hc),
    fun c hc => hsolid c (List.mem_of_mem_getLast? hc)⟩

variable {head : Bytes} {request : Request}

/-- A path is a word. -/
theorem path_ne_nil (hparse : Request.parse head = .ok request) : request.path.toList ≠ [] := by
  obtain ⟨_, _, _, _, _, hfirst, _⟩ := Request.parse_eq_ok_iff.1 hparse
  obtain ⟨_, hwords⟩ := Request.requestLine_eq_ok_iff.1 hfirst
  cases hwords with
  | next _ hrest =>
    cases hrest with
    | next hpath _ => exact hpath.ne_nil

theorem trimmed_location (hparse : Request.parse head = .ok request) :
    trimmed ("ws://" ++ request.host.getD "" ++ request.path) =
      "ws://" ++ request.host.getD "" ++ request.path := by
  rw [trimmed_eq_self_iff, Text.trim_eq_self_iff, String.toList_append]
  constructor
  · intro c hc
    have hw : 'w' = c := by
      rw [String.toList_append] at hc
      exact Option.some.inj hc
    rw [← hw]
    decide
  · intro c hc
    rw [List.getLast?_append_of_ne_nil _ (path_ne_nil hparse)] at hc
    exact Request.not_blank_of_path hparse c (List.mem_of_mem_getLast? hc)

theorem trimmed_kept {lines : List (List Char)} {parts : List (List Char × List Char)}
    (h : List.Forall₂ Request.IsField lines parts) :
    ∀ part ∈ parts, trimmed (Request.kept part).2 = (Request.kept part).2 := by
  induction h with
  | nil => exact List.forall_mem_nil _
  | cons hpart _ ih =>
    obtain ⟨_, _, _, _, _, hvalue⟩ := hpart
    refine List.forall_mem_cons.2 ⟨?_, ih⟩
    rw [trimmed_eq_self_iff, Request.kept, String.toList_ofList, Text.trim_eq_self_iff]
    exact ⟨hvalue.head, hvalue.last⟩

/-- A header is kept of values without white space around them. -/
theorem exists_joined (hparse : Request.parse head = .ok request) (name : String) :
    ∃ values, request.header name = Request.joined values ∧
      ∀ value ∈ values, trimmed value = value := by
  obtain ⟨text, first, lines, _, _, _, hheaders⟩ := Request.parse_eq_ok_iff.1 hparse
  obtain ⟨fields, hreads, hfields⟩ := Request.headerLines_eq_ok_iff.1 hheaders
  obtain ⟨parts, hparts, rfl⟩ := Request.reads_iff.1 hreads
  have hkept := trimmed_kept hparts
  refine ⟨Request.valuesOf (String.ofList (Text.lowercaseAscii name.toList))
    (parts.map Request.kept), ?_, ?_⟩
  · rw [Request.header, hfields, Request.header_withFields]
  · intro value hvalue
    obtain ⟨field, hfield, rfl⟩ := List.mem_map.1 hvalue
    obtain ⟨part, hpart, rfl⟩ := List.mem_map.1 (List.mem_of_mem_filter hfield)
    exact hkept part hpart

/-! ## The origin -/

/-- A text that ends in the join of an empty value. -/
def EndsInJoin (text : String) : Prop :=
  [',', ' '] <:+ text.toList

instance (text : String) : Decidable (EndsInJoin text) :=
  inferInstanceAs (Decidable (_ <:+ _))

/-- An origin as a client reads it. -/
def readBack (origin : String) : String :=
  if EndsInJoin origin then String.ofList origin.toList.dropLast else origin

theorem readBack_of_trimmed {text : String} (h : trimmed text = text) : readBack text = text := by
  rw [readBack, if_neg]
  rintro ⟨front, hfront⟩
  rw [trimmed_eq_self_iff, Text.trim_eq_self_iff, ← hfront] at h
  have hblank := h.2 ' ' (by rw [List.getLast?_append_of_ne_nil _ (List.cons_ne_nil _ _)]; rfl)
  revert hblank
  decide

section Joined

variable {values : List String} {value : String}
  (hvalues : ∀ value ∈ values, trimmed value = value) (hjoined : Request.joined values = some value)

include hvalues hjoined

/-- There is no white space in front of values that are joined. -/
theorem head_joined : ∀ c ∈ value.toList.head?, Text.isBlank c = false := by
  cases values with
  | nil => cases hjoined
  | cons first rest =>
    cases hjoined
    have hfirst := hvalues first List.mem_cons_self
    rw [trimmed_eq_self_iff, Text.trim_eq_self_iff] at hfirst
    cases rest with
    | nil =>
      rw [String.intercalate_singleton]
      exact hfirst.1
    | cons second rest =>
      rw [String.intercalate_cons_cons, String.append_assoc, String.toList_append,
        String.toList_append]
      intro c hc
      cases hchars : first.toList with
      | nil =>
        rw [hchars] at hc
        obtain rfl : ',' = c := Option.some.inj hc
        decide
      | cons d chars =>
        rw [hchars] at hc
        obtain rfl : d = c := Option.some.inj hc
        exact hfirst.1 d (by rw [hchars]; rfl)

omit hvalues in
/-- What is joined last. -/
theorem joined_cases :
    values = [value] ∨ ∃ init known last, values = init ++ [last] ∧
      Request.joined init = some known ∧ value = known ++ ", " ++ last := by
  obtain rfl | ⟨init, last, rfl⟩ := List.eq_nil_or_concat values
  · cases hjoined
  · rw [List.concat_eq_append] at hjoined ⊢
    rw [Request.joined_concat] at hjoined
    cases init with
    | nil =>
      cases hjoined
      exact .inl rfl
    | cons first rest =>
      cases hjoined
      exact .inr ⟨_, _, _, rfl, rfl, rfl⟩

/-- Behind them there is some only if the last one is empty. -/
theorem trimmed_joined : trimmed value = readBack value := by
  have hhead := head_joined hvalues hjoined
  obtain rfl | ⟨init, known, last, rfl, -, rfl⟩ := joined_cases hjoined
  · have hsame := hvalues value List.mem_cons_self
    rw [hsame, readBack_of_trimmed hsame]
  · have htext : (known ++ ", " ++ last).toList = known.toList ++ [',', ' '] ++ last.toList := by
      rw [String.toList_append, String.toList_append]
      rfl
    have hlast := hvalues last (List.mem_append_right _ List.mem_cons_self)
    by_cases hempty : last = ""
    · -- What is cut off is the space of the last join.
      subst hempty
      rw [String.toList_empty, List.append_nil] at htext
      rw [htext] at hhead
      have hends : EndsInJoin (known ++ ", " ++ "") := ⟨known.toList, htext.symm⟩
      have hfront : known.toList ++ [',', ' '] = known.toList ++ [','] ++ [' '] := by
        rw [List.append_assoc]
        rfl
      rw [readBack, if_pos hends, trimmed, String.ofList_inj, htext, hfront,
        List.dropLast_concat]
      refine Text.trim_concat (by decide) (fun c hc => hhead c ?_) fun c hc => ?_
      · rw [hfront, List.head?_append_of_ne_nil _ (by simp)]
        exact hc
      · rw [List.getLast?_concat, Option.mem_some] at hc
        rw [← hc]
        decide
    · have hne : last.toList ≠ [] := by simpa using hempty
      have hsame : trimmed (known ++ ", " ++ last) = known ++ ", " ++ last := by
        rw [trimmed_eq_self_iff, Text.trim_eq_self_iff] at hlast ⊢
        refine ⟨hhead, ?_⟩
        rw [htext, List.getLast?_append_of_ne_nil _ hne]
        exact hlast.2
      rw [hsame, readBack_of_trimmed hsame]

end Joined

theorem trimmed_origin {origin name : String} (hparse : Request.parse head = .ok request)
    (horigin : request.header name = some origin) : trimmed origin = readBack origin := by
  obtain ⟨values, hjoined, hvalues⟩ := exists_joined hparse name
  exact trimmed_joined hvalues (hjoined.symm.trans horigin)

/-! ## What replies are meant to say -/

/-- The reply that accepts a framed version, as it is meant. -/
def acceptMeant (key : String) (subProtocol : Option String) : Request where
  method := "HTTP/1.1"
  path := "101"
  headers :=
    [("connection", "Upgrade"), ("sec-websocket-accept", acceptKey key)] ++
      subProtocol.toList.map (("sec-websocket-protocol", ·)) ++ [("upgrade", "WebSocket")]

/-- The reply that accepts draft-00, as it is meant. -/
def draftMeant (request : Request) (origin subProtocol : Option String) : Request where
  method := "HTTP/1.1"
  path := "101"
  headers :=
    [("connection", "Upgrade"),
      ("sec-websocket-location", "ws://" ++ request.host.getD "" ++ request.path)] ++
      origin.toList.map (("sec-websocket-origin", ·)) ++
      subProtocol.toList.map (("sec-websocket-protocol", ·)) ++ [("upgrade", "WebSocket")]

theorem map_trimmed (name : String) {value meant : Option String}
    (h : value.map trimmed = meant) :
    value.toList.map (fun text => (name, trimmed text)) = meant.toList.map ((name, ·)) := by
  subst h
  cases value <;> rfl

/-- The reply that accepts a framed version is read as it is meant. -/
theorem readsAs_acceptMeant (options : WebSocketOptions)
    (hparse : Request.parse head = .ok request) (key : String) :
    ReadsAs (acceptReply key (agreedProtocol options request))
      (acceptMeant key (agreedProtocol options request)) [] := by
  have hread : acceptRead key (agreedProtocol options request) =
      acceptMeant key (agreedProtocol options request) := by
    rw [acceptRead, acceptMeant, trimmed_acceptKey,
      map_trimmed _ (map_trimmed_agreedProtocol options hparse)]
  rw [← hread]
  exact readsAs_acceptReply key fun name hname => (text_agreedProtocol options hparse name hname).1

/-- The reply that accepts draft-00 is read as it is meant, but for the origin. -/
theorem readsAs_draftMeant (options : WebSocketOptions)
    (hparse : Request.parse head = .ok request) (answer : Bytes) :
    ReadsAs
      (draftReply request (request.header "origin") (agreedProtocol options request) answer)
      (draftMeant request ((request.header "origin").map readBack)
        (agreedProtocol options request)) answer := by
  have horigin : (request.header "origin").map trimmed =
      (request.header "origin").map readBack :=
    Option.map_congr fun _ hsome => trimmed_origin hparse hsome
  have hread : draftRead request (request.header "origin") (agreedProtocol options request) =
      draftMeant request ((request.header "origin").map readBack)
        (agreedProtocol options request) := by
    rw [draftRead, draftMeant, trimmed_location hparse, map_trimmed _ horigin,
      map_trimmed _ (map_trimmed_agreedProtocol options hparse)]
  rw [← hread]
  exact readsAs_draftReply hparse (fun _ hsome => Request.unbroken_of_header hparse hsome)
    (fun name hname => (text_agreedProtocol options hparse name hname).1) answer

end WebSocket

end FramedChannel
