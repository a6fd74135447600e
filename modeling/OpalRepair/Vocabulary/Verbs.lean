/-!
# Verbs

The verbs a stage may start with, in ascending order.
-/

namespace OpalRepair.Vocabulary

set_option maxRecDepth 4000

def verbs : List String :=
  ["add_key", "add_metadata", "aggregate", "align", "always", "bottomk", "cluster_logs",
   "coalesce_col", "dedup", "detect_anomalies", "distinct", "drop_col", "drop_interface", "ever",
   "exists", "extract_regex", "fill", "filter", "filter_last", "flatten", "flatten_all",
   "flatten_leaves", "flatten_single", "follow", "follow_not", "fulljoin", "histogram",
   "interface", "join", "leftjoin", "limit", "log_patterns", "lookup", "make_col", "make_event",
   "make_interval", "make_metric", "make_object_col", "make_reference", "make_resource",
   "make_session", "make_span", "make_table", "make_tdigest", "make_trace", "merge_events",
   "never", "not_exists", "parse_json_col", "parse_kv", "pick_col", "pivot", "rename_col",
   "rollup", "sample", "set_col_description", "set_col_enum", "set_col_immutable",
   "set_col_searchable", "set_col_type", "set_col_visible", "set_dataset_description", "set_icon",
   "set_kind", "set_label", "set_link", "set_metric", "set_metric_metadata", "set_primary_key",
   "set_source_url", "set_tags", "set_timestamp", "set_unit", "set_valid_from", "set_valid_to",
   "sort", "span_tree", "split_col", "statsby", "surrounding", "timechart", "timeshift",
   "timestats", "top_values", "topk", "union", "unnest", "unpivot", "unset_all_links",
   "unset_col_enum", "unset_col_immutable", "unset_col_searchable", "unset_col_visible",
   "unset_keys", "unset_label", "unset_link", "unset_metric", "unset_primary_key",
   "unset_valid_to", "update_resource", "window_stats"]

def aggregationVerbs : List String :=
  ["statsby", "timechart", "timestats", "aggregate"]

end OpalRepair.Vocabulary
