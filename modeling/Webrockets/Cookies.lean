import Webrockets.Request

/-! The cookies of a request (`IncomingConnection::py_new`).

A `Cookie` header is taken apart at its semicolons, and a segment at its first `=`.
`cookies_round_trip` says that this undoes putting a header together. The header is read as a
whole, though: a byte that cannot be read makes every cookie unavailable, and not only the one it
stands in (`cookie_kept`). -/
namespace Webrockets

/-! ### Headers that are put together -/

/-- A cookie that may stand in a header. -/
structure Cookie where
  name : String
  value : String
  plainName : Plain name
  nameFree : ';' ∉ name.toList ∧ '=' ∉ name.toList
  plainValue : Plain value
  valueFree : ';' ∉ value.toList

/-- `name=value`. -/
def Cookie.text (c : Cookie) : List Char := c.name.toList ++ '=' :: c.value.toList

/-- Blanks around a cookie. -/
structure Padding where
  blanks : List Char
  blank : ∀ c ∈ blanks, isBlank c = true

inductive Segment where
  | cookie (before : Padding) (c : Cookie) (after : Padding)
  /-- What is no cookie, as there is no `=` in it. -/
  | junk (text : String) (visible : text.toList.all isVisible = true)
      (free : ';' ∉ text.toList ∧ '=' ∉ text.toList)

namespace Segment

def text : Segment → List Char
  | .cookie before c after => before.blanks ++ c.text ++ after.blanks
  | .junk text _ _ => text.toList

def cookie? : Segment → Option Cookie
  | .cookie _ c _ => some c
  | .junk _ _ _ => none

end Segment

/-- The segments, joined with semicolons. -/
def cookieHeader (segments : List Segment) : String :=
  .ofList ([';'].intercalate (segments.map Segment.text))

def cookiesOf (segments : List Segment) : List Cookie := segments.filterMap Segment.cookie?

/-- The value that was listed last for a name. -/
def lastValue (cookies : List Cookie) (name : String) : Option String :=
  (cookies.reverse.find? (·.name = name)).map Cookie.value

/-! ### A turn of the loop -/

/-- Trimming a segment before it is split makes no difference. -/
theorem insertCookie_eq (cookies : IndexMap String String) (cookie : String) :
    insertCookie cookies cookie =
      match splitOnce '=' cookie with
      | some (name, value) => cookies.insert (trim name) (trim value)
      | none => cookies := by
  have hsplit := TextFields.splitOnce_trim (show isWhitespace '=' = false by decide) cookie.toList
  have htrim : (trim cookie).toList = TextFields.trim isWhitespace cookie.toList := String.toList_ofList
  rw [insertCookie, splitOnce, htrim, hsplit, splitOnce]
  cases TextFields.splitOnce '=' cookie.toList with
  | none => rfl
  | some p =>
    simp only [Option.map_some, trim_ofList, TextFields.trim_dropWhile, TextFields.trim_rdropWhile]

theorem whitespace_of_blank (c : Char) (h : isBlank c = true) : isWhitespace c = true := by
  rw [whitespace_of_visible (visible_of_blank c h), h]

/-- A plain text has no whitespace around it. -/
theorem Plain.trim_pad {s : String} (h : Plain s) {before after : List Char}
    (hbefore : ∀ c ∈ before, isBlank c = true) (hafter : ∀ c ∈ after, isBlank c = true) :
    trim (.ofList (before ++ s.toList ++ after)) = s := by
  have htrimmed : TextFields.Trimmed isWhitespace s.toList := by
    have hvisible := List.all_eq_true.mp h.visible
    refine ⟨fun c hc => ?_, fun c hc => ?_⟩
    · rw [whitespace_of_visible (hvisible c (List.mem_of_mem_head? hc)), h.first c hc]
    · rw [whitespace_of_visible (hvisible c (List.mem_of_getLast? hc)), h.last c hc]
  rw [trim_ofList, TextFields.trim_pad (fun c hc => whitespace_of_blank c (hbefore c hc))
    (fun c hc => whitespace_of_blank c (hafter c hc)) htrimmed, String.ofList_toList]

theorem not_mem_blanks {l : List Char} (h : ∀ c ∈ l, isBlank c = true) {c : Char}
    (hc : isBlank c = false) : c ∉ l := by
  intro hmem
  rw [h c hmem] at hc
  cases hc

theorem insertCookie_cookie (cookies : IndexMap String String) (before after : Padding) (c : Cookie) :
    insertCookie cookies (.ofList (Segment.cookie before c after).text) =
      cookies.insert c.name c.value := by
  have htext : (Segment.cookie before c after).text =
      (before.blanks ++ c.name.toList) ++ '=' :: (c.value.toList ++ after.blanks) := by
    simp [Segment.text, Cookie.text]
  have hname : '=' ∉ before.blanks ++ c.name.toList := by
    rw [List.mem_append, not_or]
    exact ⟨not_mem_blanks before.blank (by decide), c.nameFree.2⟩
  have hnone : ∀ b ∈ ([] : List Char), isBlank b = true := List.forall_mem_nil _
  have hbefore := c.plainName.trim_pad before.blank hnone
  have hafter := c.plainValue.trim_pad hnone after.blank
  rw [List.append_nil] at hbefore
  rw [List.nil_append] at hafter
  rw [insertCookie_eq, splitOnce, String.toList_ofList, htext, TextFields.splitOnce_append hname]
  simp only [Option.map_some, hbefore, hafter]

theorem insertCookie_junk {cookies : IndexMap String String} {text : String}
    (h : '=' ∉ text.toList) : insertCookie cookies text = cookies := by
  rw [insertCookie_eq, splitOnce, TextFields.splitOnce_eq_none.mpr h]
  rfl

/-! ### The whole loop -/

theorem foldl_segments (segments : List Segment) (cookies : IndexMap String String) :
    (segments.map fun s => String.ofList s.text).foldl insertCookie cookies =
      ((cookiesOf segments).map fun c => (c.name, c.value)).foldl
        (fun m e => m.insert e.1 e.2) cookies := by
  induction segments generalizing cookies with
  | nil => rfl
  | cons s rest ih =>
    rw [List.map_cons, List.foldl_cons, ih]
    cases s with
    | cookie before c after => rw [insertCookie_cookie]; rfl
    | junk text visible free =>
      rw [Segment.text, String.ofList_toList, insertCookie_junk free.2]
      rfl

theorem Segment.free (s : Segment) : ';' ∉ s.text := by
  cases s with
  | cookie before c after =>
    simp only [text, Cookie.text, List.mem_append, List.mem_cons, not_or]
    exact ⟨⟨not_mem_blanks before.blank (by decide), c.nameFree.1, by decide, c.valueFree⟩,
      not_mem_blanks after.blank (by decide)⟩
  | junk text visible free => exact free.1

theorem Segment.visible (s : Segment) : s.text.all isVisible = true := by
  cases s with
  | cookie before c after =>
    simp only [text, Cookie.text, List.all_append, List.all_cons, c.plainName.visible,
      c.plainValue.visible, Bool.and_eq_true, List.all_eq_true]
    exact ⟨⟨fun b hb => visible_of_blank b (before.blank b hb), trivial, by decide, trivial⟩,
      fun b hb => visible_of_blank b (after.blank b hb)⟩
  | junk text visible free => exact visible

theorem visible_cookieHeader (segments : List Segment) :
    (cookieHeader segments).toList.all isVisible = true := by
  rw [cookieHeader, String.toList_ofList]
  apply TextFields.all_intercalate (by decide)
  intro l hl
  obtain ⟨s, _, rfl⟩ := List.mem_map.mp hl
  exact s.visible

/-- Splitting undoes joining. -/
theorem decodeCookies_header (segments : List Segment) :
    decodeCookies (cookieHeader segments) =
      .ofList ((cookiesOf segments).map fun c => (c.name, c.value)) := by
  by_cases hnil : segments = []
  · subst hnil
    rfl
  · have hsplit : ([';'].intercalate (segments.map Segment.text)).splitOn ';' =
        segments.map Segment.text := by
      apply List.splitOn_intercalate
      · intro l hl
        obtain ⟨s, _, rfl⟩ := List.mem_map.mp hl
        exact s.free
      · simpa using hnil
    rw [decodeCookies, split, cookieHeader, String.toList_ofList, hsplit, List.map_map]
    exact foldl_segments segments .empty

theorem getCookie_eq {toStr : List UInt8 → Option String} {uri : Uri} {headerMap : HeaderMap}
    {value : List UInt8} {cookieStr : String} (hvalue : headerMap.get "cookie" = some value)
    (hread : toStr value = some cookieStr) (name : String) :
    (IncomingConnection.pyNew toStr uri headerMap).base.getCookie name =
      (decodeCookies cookieStr).get? name := by
  show (collectCookies toStr headerMap).get? name = _
  simp only [collectCookies, hvalue, hread]

theorem getCookie_header {toStr : List UInt8 → Option String} (h : ReadsVisible toStr) {uri : Uri}
    {headerMap : HeaderMap} {segments : List Segment}
    (hheader : headerMap.get "cookie" = some (bytesOf (cookieHeader segments))) (name : String) :
    (IncomingConnection.pyNew toStr uri headerMap).base.getCookie name =
      lastValue (cookiesOf segments) name := by
  rw [getCookie_eq hheader (h.read (visible_cookieHeader segments)), decodeCookies_header,
    IndexMap.get?_ofList_last, ← List.map_reverse, List.find?_map, Option.map_map]
  rfl

/-- **Decoding undoes encoding.** Where cookies are listed with blanks around them, and perhaps
with segments between them that have no `=`, every name gets the value that was listed last for
it, and no other name gets one. Whether there are such segments, and where, changes nothing. -/
theorem cookies_round_trip (toStr : List UInt8 → Option String) (h : ReadsVisible toStr) (uri : Uri)
    (headerMap headerMap' : HeaderMap) (segments segments' : List Segment)
    (hheader : headerMap.get "cookie" = some (bytesOf (cookieHeader segments)))
    (hheader' : headerMap'.get "cookie" = some (bytesOf (cookieHeader segments')))
    (hsame : cookiesOf segments' = cookiesOf segments) (name : String) :
    (IncomingConnection.pyNew toStr uri headerMap).base.getCookie name =
        lastValue (cookiesOf segments) name ∧
      (IncomingConnection.pyNew toStr uri headerMap').base.getCookie name =
        (IncomingConnection.pyNew toStr uri headerMap).base.getCookie name := by
  rw [getCookie_header h hheader, getCookie_header h hheader', hsame]
  exact ⟨rfl, rfl⟩

def cookieName : HeaderName := ⟨"cookie", by decide⟩

def sessionCookie : Cookie where
  name := "sid"
  value := "a1"
  plainName := ⟨by decide, by simp [isBlank], by simp [isBlank]⟩
  nameFree := by decide
  plainValue := ⟨by decide, by simp [isBlank], by simp [isBlank]⟩
  valueFree := by decide

/-- `sid=a1 ;x;sid=b2`. -/
def twoSessions : List Segment :=
  [.cookie ⟨[], by simp⟩ sessionCookie ⟨[' '], by simp [isBlank]⟩, .junk "x" (by decide) (by decide),
    .cookie ⟨[], by simp⟩ { sessionCookie with
      value := "b2"
      plainValue := ⟨by decide, by simp [isBlank], by simp [isBlank]⟩
      valueFree := by decide } ⟨[], by simp⟩]

theorem cookies_round_trip_session :
    (IncomingConnection.pyNew readVisible rootUri
      [(cookieName, bytesOf (cookieHeader twoSessions))]).base.getCookie "sid" = some "b2" :=
  (cookies_round_trip readVisible readsVisible_readVisible rootUri
    [(cookieName, bytesOf (cookieHeader twoSessions))]
    [(cookieName, bytesOf (cookieHeader twoSessions))] twoSessions twoSessions rfl rfl rfl "sid").1

/-! ### Neighbours -/

/-- What stands before the first `=` of a segment is the name, up to blanks around it. -/
def Named (name : String) (segment : List UInt8) : Prop :=
  ∃ p, TextFields.splitOnce 0x3D segment = some p ∧ TextFields.trim isBlankByte p.1 = bytesOf name

/-- A header with a cookie in it, and no other cookie of that name. -/
def Lists (c : Cookie) (header : List UInt8) : Prop := ∃ before left right after,
  header.splitOn 0x3B = before ++ bytesOf (.ofList (Segment.cookie left c right).text) :: after ∧
    ∀ segment ∈ before ++ after, ¬ Named c.name segment

/-- The text of a segment that can be read. -/
def asText (segment : List UInt8) : String := .ofList (segment.map charOfByte)

section Neighbours
variable {toStr : List UInt8 → Option String} {uri : Uri} {headerMap : HeaderMap}
  {header segment : List UInt8} {cookies : IndexMap String String} {c : Cookie}

theorem splitOnce_asText (segment : List UInt8) :
    splitOnce '=' (asText segment) =
      (TextFields.splitOnce 0x3D segment).map fun p => (asText p.1, asText p.2) := by
  have hsplit := TextFields.splitOnce_map charOfByte_injective 0x3D segment
  rw [splitOnce, asText, String.toList_ofList]
  rw [show charOfByte 0x3D = '=' by decide] at hsplit
  rw [hsplit, Option.map_map]
  rfl

theorem split_asText (header : List UInt8) :
    split ';' (asText header) = (header.splitOn 0x3B).map asText := by
  have hsplit := TextFields.splitOn_map charOfByte_injective 0x3B header
  rw [show charOfByte 0x3B = ';' by decide] at hsplit
  rw [split, asText, String.toList_ofList, hsplit, List.map_map]
  rfl

/-- A name that can be read is trimmed as its bytes are. -/
theorem trim_asText (h : segment.all isVisibleByte = true) :
    trim (asText segment) = asText (TextFields.trim isBlankByte segment) := by
  rw [asText, trim_ofList, TextFields.trim_map]
  refine congrArg (fun l => String.ofList (l.map charOfByte)) (TextFields.trim_congr fun b hb => ?_)
  exact whitespace_of_visible (List.all_eq_true.mp h b hb)

theorem asText_bytesOf {s : String} (h : s.toList.all isVisible = true) : asText (bytesOf s) = s := by
  rw [asText, map_bytesOf h, String.ofList_toList]

theorem asText_injective : Function.Injective asText := by
  intro l l' h
  rw [asText, asText, String.ofList_inj] at h
  exact List.map_injective_iff.mpr charOfByte_injective h

/-- A segment with another name leaves the cookie as it is. -/
theorem get?_insertCookie_of_ne {name : String} (hname : name.toList.all isVisible = true)
    (h : ¬ Named name segment) (hvisible : segment.all isVisibleByte = true)
    (cookies : IndexMap String String) :
    (insertCookie cookies (asText segment)).get? name = cookies.get? name := by
  rw [insertCookie_eq, splitOnce_asText]
  cases hsplit : TextFields.splitOnce 0x3D segment with
  | none => rfl
  | some p =>
    have hp : p.1.all isVisibleByte = true := by
      obtain ⟨hsegment, _⟩ := TextFields.splitOnce_eq_some.mp hsplit
      rw [hsegment, List.all_append, Bool.and_eq_true] at hvisible
      exact hvisible.1
    refine IndexMap.get?_insert_of_ne _ (fun heq => h ⟨p, hsplit, ?_⟩) _
    rw [trim_asText hp, ← asText_bytesOf hname] at heq
    exact (asText_injective heq).symm

theorem get?_foldl_of_ne {name : String} (hname : name.toList.all isVisible = true)
    (segments : List (List UInt8)) (h : ∀ s ∈ segments, ¬ Named name s)
    (hvisible : ∀ s ∈ segments, s.all isVisibleByte = true) (cookies : IndexMap String String) :
    ((segments.map asText).foldl insertCookie cookies).get? name = cookies.get? name := by
  induction segments generalizing cookies with
  | nil => rfl
  | cons s rest ih =>
    rw [List.map_cons, List.foldl_cons, ih (fun t ht => h t (List.mem_cons_of_mem _ ht))
      fun t ht => hvisible t (List.mem_cons_of_mem _ ht)]
    exact get?_insertCookie_of_ne hname (h s List.mem_cons_self) (hvisible s List.mem_cons_self) _

/-- A header that can be read gives the cookie that it lists. -/
theorem decodeCookies_lists (h : Lists c header) (hvisible : header.all isVisibleByte = true) :
    (decodeCookies (asText header)).get? c.name = some c.value := by
  obtain ⟨before, left, right, after, hsplit, hother⟩ := h
  have hsegments : ∀ s ∈ before ++ after, s.all isVisibleByte = true := by
    intro s hs
    rw [List.all_eq_true]
    intro b hb
    have hmem : s ∈ header.splitOn 0x3B := by
      rw [hsplit]
      simp only [List.mem_append, List.mem_cons] at hs ⊢
      tauto
    exact List.all_eq_true.mp hvisible b (TextFields.mem_of_mem_splitOn hmem hb)
  have htext : asText (bytesOf (.ofList (Segment.cookie left c right).text)) =
      .ofList (Segment.cookie left c right).text :=
    asText_bytesOf (by rw [String.toList_ofList]; exact Segment.visible _)
  rw [decodeCookies, split_asText, hsplit, List.map_append, List.map_cons, List.foldl_append,
    List.foldl_cons, htext, insertCookie_cookie, get?_foldl_of_ne c.plainName.visible after
    (fun s hs => hother s (List.mem_append_right _ hs))
    fun s hs => hsegments s (List.mem_append_right _ hs)]
  exact IndexMap.get?_insert_self _ _ _

theorem getCookie_iff (h : ReadsVisible toStr) (hheader : headerMap.get "cookie" = some header)
    (hlists : Lists c header) :
    (IncomingConnection.pyNew toStr uri headerMap).base.getCookie c.name = some c.value ↔
      header.all isVisibleByte = true := by
  by_cases hvisible : header.all isVisibleByte = true
  · have hread : toStr header = some (asText header) := h.eq_some.mpr ⟨hvisible, rfl⟩
    rw [getCookie_eq hheader hread, decodeCookies_lists hlists hvisible]
    exact iff_of_true rfl hvisible
  · have hread : toStr header = none := by rw [h header, if_neg hvisible]
    have hempty : collectCookies toStr headerMap = .empty := by
      simp only [collectCookies, hheader, hread]
    refine iff_of_false (fun hget => ?_) hvisible
    have hfind : (collectCookies toStr headerMap).get? c.name = some c.value := hget
    rw [hempty] at hfind
    cases hfind

end Neighbours

/-- **A cookie is available where the whole header can be read.** Of two headers that list the
same cookie, and differ in other segments with other names, both give its value if and only if
neither has a byte that is not visible. -/
theorem cookie_kept (toStr : List UInt8 → Option String) (h : ReadsVisible toStr) (c : Cookie)
    (uri uri' : Uri) (headerMap headerMap' : HeaderMap) (header header' : List UInt8)
    (hheader : headerMap.get "cookie" = some header)
    (hheader' : headerMap'.get "cookie" = some header')
    (hlists : Lists c header) (hlists' : Lists c header') :
    ((IncomingConnection.pyNew toStr uri headerMap).base.getCookie c.name = some c.value ∧
      (IncomingConnection.pyNew toStr uri' headerMap').base.getCookie c.name = some c.value) ↔
      header.all isVisibleByte = true ∧ header'.all isVisibleByte = true :=
  and_congr (getCookie_iff h hheader hlists) (getCookie_iff h hheader' hlists')

/-- ` x=` and a byte. -/
def neighbour (b : UInt8) : List UInt8 := [0x20, 0x78, 0x3D, b]

/-- `sid=a1; x=` and a byte. -/
def sessionHeader (b : UInt8) : List UInt8 := bytesOf "sid=a1" ++ 0x3B :: neighbour b

def sessionRequest (b : UInt8) : HeaderMap := [(cookieName, sessionHeader b)]

theorem lists_sessionHeader {b : UInt8}
    (hsplit : (sessionHeader b).splitOn 0x3B = [bytesOf "sid=a1", neighbour b]) :
    Lists sessionCookie (sessionHeader b) := by
  refine ⟨[], ⟨[], by simp⟩, ⟨[], by simp⟩, [neighbour b], hsplit, ?_⟩
  rintro s hs ⟨p, hp, hname⟩
  obtain rfl : s = neighbour b := by simpa using hs
  obtain rfl : ([0x20, 0x78], [b]) = p := Option.some.inj hp
  have hne : TextFields.trim isBlankByte [0x20, 0x78] ≠ bytesOf "sid" := by decide
  exact hne hname

theorem cookie_kept_session :
    (IncomingConnection.pyNew readVisible rootUri (sessionRequest 0x31)).base.getCookie "sid" =
      some "a1" ∧
    (IncomingConnection.pyNew readVisible rootUri (sessionRequest 0x32)).base.getCookie "sid" =
      some "a1" :=
  (cookie_kept readVisible readsVisible_readVisible sessionCookie rootUri rootUri
    (sessionRequest 0x31) (sessionRequest 0x32) (sessionHeader 0x31) (sessionHeader 0x32) rfl rfl
    (lists_sessionHeader (by decide)) (lists_sessionHeader (by decide))).mpr (by decide)

/-- A byte in the value of another cookie that cannot be read makes the session unavailable. -/
theorem cookie_lost :
    Lists sessionCookie (sessionHeader 0x31) ∧ Lists sessionCookie (sessionHeader 0xFF) ∧
      (IncomingConnection.pyNew readVisible rootUri (sessionRequest 0x31)).base.getCookie "sid" =
        some "a1" ∧
      (IncomingConnection.pyNew readVisible rootUri (sessionRequest 0xFF)).base.getCookie "sid" =
        none := by
  refine ⟨lists_sessionHeader (by decide), lists_sessionHeader (by decide), ?_, ?_⟩
  · exact (getCookie_iff readsVisible_readVisible rfl (lists_sessionHeader (by decide))).mpr
      (by decide)
  · decide

end Webrockets
