/-!
# Hints

Functions that authors know from other query languages, with advice on what to write instead.
-/

namespace OpalRepair.Vocabulary

def hints : List (List String × String) :=
  [
    (["count_if", "countif", "sum_if", "sumif", "avg_if"],
      "OPAL has no conditional aggregates. Derive a flag first with make_col " ++
        "flag:if(condition, 1, 0), then aggregate it with sum(flag)."),
    (["length", "len", "char_length", "character_length"],
      "Use strlen(x) for string length or array_length(x) for arrays."),
    (["substring"],
      "Use substr(string, start, length)."),
    (["concat"],
      "Use concat_strings(a, b, ...)."),
    (["coalesce", "ifnull", "nvl"],
      "Use if_null(value, fallback) to replace nulls."),
    (["isnull"],
      "Use is_null(x)."),
    (["nullif"],
      "Use null_if(a, b)."),
    (["iif", "iff"],
      "Use if(condition, then_value, else_value)."),
    (["cast"],
      "Use a conversion function such as int64(x), float64(x) or string(x)."),
    (["tostring", "to_string", "str"],
      "Use string(x) to convert a value to a string."),
    (["toint", "to_int", "int", "integer"],
      "Use int64(x) to convert a value to an integer."),
    (["tofloat", "to_float", "float", "double"],
      "Use float64(x) to convert a value to a float."),
    (["now", "current_timestamp", "getdate"],
      "Use query_end_time() for the end of the query window."),
    (["regexp_like", "regex_match", "rlike"],
      "Use match_regex(x, /pattern/) or the ~ operator with a regex literal."),
    (["regexp_replace"],
      "Use replace_regex(x, /pattern/, replacement)."),
    (["regexp_extract"],
      "Use get_regex(x, /pattern/, group)."),
    (["approx_count_distinct", "distinct_count", "dcount"],
      "Use count_distinct(x) (approximate) or count_distinct_exact(x)."),
    (["string_agg", "group_concat", "listagg", "collect_list"],
      "Use array_agg(x) to collect values into an array."),
    (["percentile_approx", "approx_percentile", "quantile"],
      "Use percentile(x, 0.95) with a fraction between 0 and 1."),
    (["to_timestamp", "from_unixtime"],
      "Use from_seconds(x), from_milliseconds(x) or parse_isotime(s) to build a timestamp."),
    (["unix_timestamp"],
      "Use to_seconds(timestamp) for epoch seconds."),
    (["json_extract", "json_value", "get_json_object"],
      "Use parse_json(x) and then dot access or get_field(object, \"key\") on the result."),
    (["date_trunc", "time_bucket"],
      "Bucket time with timechart <interval> or read the bucket with bin_start_time()."),
    (["datediff", "date_diff"],
      "Subtract timestamps directly; the result is a duration."),
    (["dateadd", "date_add"],
      "Add a duration literal directly, e.g. timestamp + 1h."),
    (["date_format", "strftime"],
      "Use format_time(timestamp, \"YYYY-MM-DD\")."),
    (["ucase"],
      "Use upper(x)."),
    (["lcase"],
      "Use lower(x).")
  ]

def hint? (name : String) : Option String :=
  (hints.find? (·.1.contains name)).map Prod.snd

end OpalRepair.Vocabulary
