/-!
# Functions

The functions an expression may call, in ascending order, and the words that may stand before a
parenthesis without being called.
-/

namespace OpalRepair.Vocabulary

set_option maxRecDepth 4000

def functions : List String :=
  ["abs", "acos", "acosh", "ago", "all", "anomaly_score", "any", "any_not_null", "append_item",
   "array", "array_agg", "array_agg_distinct", "array_concat", "array_contains", "array_distinct",
   "array_except", "array_flatten", "array_intersect", "array_length", "array_max", "array_min",
   "array_null", "array_pivot", "array_position", "array_prepend", "array_remove", "array_slice",
   "array_sort", "array_sum", "array_to_string", "array_union", "array_union_agg",
   "arrays_overlap", "asc", "ascii", "asin", "asinh", "atan", "atan2", "atanh", "avg", "between",
   "bin", "bin_end_time", "bin_size", "bin_start_time", "bitand", "bitnot", "bitor",
   "bitshiftleft", "bitshiftright", "bitxor", "bool", "bool_and", "bool_null", "bool_or",
   "bucket", "bytes", "cardinality", "case", "cbrt", "ceil", "ceiling", "changepoint", "changes",
   "char", "choose", "cidr_contains", "clamp", "coalesce_objects", "column_count",
   "concat_strings", "contains", "contains_all", "contains_any", "convert_timezone", "cos",
   "cosh", "cot", "count", "count_distinct", "count_distinct_exact", "count_regex_matches",
   "crc32", "cume_dist", "cumsum", "customer_id", "dataset_id", "day_of_month", "day_of_week",
   "day_of_year", "decode", "decode_base64", "decode_html", "decode_uri", "decode_uri_component",
   "dedup_key", "default", "degrees", "delta", "delta_monotonic", "dense_rank", "deriv", "desc",
   "description", "div", "domain", "drop_fields", "duration", "duration_day", "duration_hr",
   "duration_min", "duration_ms", "duration_ns", "duration_null", "duration_sec", "duration_us",
   "editdistance", "ellipsize", "emit", "encode_base64", "encode_html", "encode_uri",
   "encode_uri_component", "ends_with", "endswith", "entropy", "env", "eq", "event_count",
   "every", "ewma", "exclude", "exp", "extract_json", "factorial", "farm_fingerprint",
   "fill_value", "fingerprint", "first", "first_item", "first_not_null", "first_value",
   "flatten_object", "float64", "float64_null", "floor", "forecast", "format", "format_duration",
   "format_json", "format_number", "format_time", "frame", "frame_exact", "frame_following",
   "frame_preceding", "from_microseconds", "from_milliseconds", "from_nanoseconds",
   "from_seconds", "gcd", "geoip_city", "geoip_country", "get_field", "get_item", "get_jmespath",
   "get_regex", "get_regex_all", "greatest", "group_by", "group_id", "gt", "gte", "hash",
   "hash_agg", "hex", "histogram_agg", "histogram_combine", "histogram_fraction",
   "histogram_quantile", "hll_agg", "hll_combine", "hll_estimate", "hostname", "hour",
   "http_status_class", "human_bytes", "human_duration", "idelta", "if", "if_not_null", "if_null",
   "ilike", "in_range", "include", "increase", "inf", "ingest_id", "ingest_time", "initcap",
   "input", "inputs", "int64", "int64_null", "int_to_ipv4", "interpolate", "interval",
   "interval_duration", "interval_end", "interval_start", "ipv4", "ipv4_address_in_network",
   "ipv4_is_loopback", "ipv4_is_private", "ipv4_network_int_to_string", "ipv4_null",
   "ipv4_subnet", "ipv4_to_int", "ipv6_to_string", "iqr", "irate", "is_array", "is_blank",
   "is_bool", "is_duration", "is_empty", "is_false", "is_float64", "is_inf", "is_int64", "is_nan",
   "is_not_null", "is_null", "is_object", "is_string", "is_timestamp", "is_true", "jaro_winkler",
   "json_path", "label", "lag", "lag_not_null", "last", "last_item", "last_not_null",
   "last_value", "lcm", "lead", "lead_not_null", "least", "left", "like", "limit_per_group",
   "link", "ln", "log", "log10", "log2", "log_level", "lower", "lpad", "lt", "lte", "ltrim", "m",
   "m_histogram", "m_object", "m_tdigest", "mad", "make_array", "make_array_range", "make_fields",
   "make_link", "make_object", "make_set_agg", "map_keys", "map_values", "mask", "match_re2",
   "match_regex", "match_regex_all", "max", "md5", "median", "median_exact", "merge_objects",
   "metric", "metric_type", "min", "minute", "mod", "mode", "month", "moving_avg", "moving_sum",
   "murmur3", "nan", "ne", "normalize_log", "normalize_whitespace", "not_ilike", "not_like",
   "not_null", "nth_value", "ntile", "null_if", "nulls_first", "nulls_last", "object",
   "object_agg", "object_delete", "object_insert", "object_keys", "object_null", "object_size",
   "object_values", "offset", "on", "options", "order_by", "outlier", "parent_span_id",
   "parse_cef", "parse_csv", "parse_duration", "parse_float", "parse_hex", "parse_int",
   "parse_ip", "parse_isotime", "parse_json", "parse_key_value", "parse_kvs", "parse_leef",
   "parse_logfmt", "parse_query_string", "parse_syslog", "parse_timestamp", "parse_url",
   "parse_user_agent", "parse_xml", "parse_yaml", "partition_by", "path_exists", "pattern",
   "percent_rank", "percentile", "percentile_cont", "percentile_disc", "pi", "pick_fields",
   "position", "pow", "power", "predict_linear", "prepend_item", "primary_key", "prom_quantile",
   "quarter", "query_end_time", "query_start_time", "radians", "random", "rank", "rate", "redact",
   "ref", "regex", "regex_escape", "repeat", "replace", "replace_all", "replace_regex",
   "replace_regex_all", "resets", "resolution", "resource_id", "reverse", "right", "round",
   "round_time", "row_count", "row_id", "row_number", "rpad", "rtrim", "safe_divide",
   "sample_rate", "search", "search_all", "search_any", "second", "seed", "service_name",
   "session_end", "session_id", "session_start", "sessionize", "severity_level", "sha1", "sha2",
   "sha256", "sha512", "sign", "sin", "sinh", "sizeof", "slice_array", "soundex", "span_duration",
   "span_error", "span_id", "split", "split_part", "split_regex", "sqrt", "square", "stage_id",
   "starts_with", "startswith", "status_code", "stddev", "stddev_pop", "stddev_samp", "step",
   "strcmp", "string", "string_null", "strip_ansi", "strlen", "strpos", "substr", "sum",
   "table_name", "tags", "tags_null", "tan", "tanh", "tdigest", "tdigest_agg", "tdigest_combine",
   "tdigest_merge", "tdigest_quantile", "time_bucket_end", "time_bucket_start", "timestamp",
   "timestamp_ms", "timestamp_ns", "timestamp_null", "timestamp_s", "timestamp_us",
   "timezone_offset", "to_days", "to_hours", "to_json", "to_microseconds", "to_milliseconds",
   "to_minutes", "to_nanoseconds", "to_seconds", "to_weeks", "tokenize", "tokenize_part",
   "tolerance", "top_k", "top_k_agg", "top_level_domain", "trace_id", "translate", "trim",
   "trunc", "truncate", "truncate_time", "typeof", "unhex", "unicode", "unit", "unpack_object",
   "upper", "url_host", "url_path", "url_port", "url_query", "url_scheme", "uuid",
   "uuid_from_string", "uuid_v4", "valid_for", "valid_from", "valid_to", "variance",
   "variance_pop", "variance_samp", "variant", "variant_null", "week", "width_bucket", "window",
   "with", "workspace_id", "xxhash64", "year", "zip_arrays", "zscore"]

def metricSelectors : List String := ["m", "m_tdigest"]

def connectives : List String := ["and", "or", "not", "in"]

end OpalRepair.Vocabulary
