/-!
# MQTT topic filters

A topic and a filter are split at `/` into levels. In a filter the level `+`
stands for any one level and a last level `#` for all the levels left, none
included; neither stands for the first level of a topic that begins with `$`.
-/

namespace Mqtt

def levels (topic : List Char) : List (List Char) := topic.splitOn '/'

def matchLevels : List (List Char) → List (List Char) → Bool
  | [], [] => true
  | [['#']], _ => true
  | f :: fs, t :: ts => (f = ['+'] || f = t) && matchLevels fs ts
  | _, _ => false

def beginsWild : List Char → Bool
  | '+' :: _ | '#' :: _ => true
  | _ => false

def topicMatches (filter topic : List Char) : Bool :=
  !(beginsWild filter && topic.head? = some '$') && matchLevels (levels filter) (levels topic)

theorem levels_name {name : List Char} (h : '/' ∉ name) : levels name = [name] :=
  List.splitOn_eq_singleton h

theorem levels_slash {name : List Char} (h : '/' ∉ name) (rest : List Char) :
    levels (name ++ '/' :: rest) = name :: levels rest :=
  List.splitOn_append_cons_self_of_not_mem h rest

theorem topicMatches_plus {name rest filter : List Char} (hslash : '/' ∉ name)
    (hdollar : name.head? ≠ some '$') :
    topicMatches ('+' :: '/' :: filter) (name ++ '/' :: rest) =
      matchLevels (levels filter) (levels rest) := by
  have hfirst : (name ++ '/' :: rest).head? ≠ some '$' := by
    cases name with
    | nil => simp
    | cons c name => simpa using hdollar
  have hplus : '/' ∉ ['+'] := by simp
  have hlevels : levels ('+' :: '/' :: filter) = ['+'] :: levels filter := levels_slash hplus filter
  rw [topicMatches, decide_eq_false hfirst, Bool.and_false, hlevels, levels_slash hslash]
  simp [matchLevels]

end Mqtt
